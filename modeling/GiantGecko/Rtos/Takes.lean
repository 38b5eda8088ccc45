import GiantGecko.Rtos.Ipc
import GiantGecko.Rtos.Waiting

namespace GiantGecko.Rtos.Takes

open Waiting
open Scheduler (Err IpcFlag)
open Ipc (Semaphore Mutex)

variable {ι Call : Type}

section Semaphores

/-- The waiters are on the list `h`, and `c` is the call that waits there. The caller is a
thread or an interrupt handler, which fails an assertion where it would wait. -/
def rtSemTake [DecidableEq ι] (h : ι) (c : Call) (caller : Option ℕ) (time : BitVec 32)
    (priority : ℕ → ℕ) (sem : Semaphore) (x : Threads ι Call) : Taken Semaphore ι Call :=
  if 0 < sem.value then ⟨some .eok, true, { sem with value := sem.value - 1 }, x⟩
  else if time = 0 then ⟨some .etimeout, false, sem, x⟩
  else
    match caller with
    | some t => ⟨none, false, sem, waitOn h sem.flag priority t time c (setError t .eok x)⟩
    | none => ⟨none, false, sem, x⟩

def rtSemRelease (h : ι) (sem : Semaphore) (x : Threads ι Call) : Released Semaphore ι Call :=
  match x.queue h with
  | [] => ⟨.eok, none, { sem with value := (sem.value + 1) % 2 ^ 16 }, x⟩
  | t :: _ => ⟨.eok, some t, sem, rtIpcListResume h x⟩

def rtSemInit (value : Fin 0x10000) (flag : IpcFlag) : Semaphore := ⟨value, flag⟩

end Semaphores

section Mutexes

/-- From the label `__again` of `rt_mutex_take`. What becomes of the priority of the owner
shows in the priorities at later calls. -/
def takeAgain [DecidableEq ι] (h : ι) (c : Call) (t : ℕ) (time : BitVec 32) (priority : ℕ → ℕ)
    (m : Mutex) (x : Threads ι Call) : Taken Mutex ι Call :=
  if 0 < m.value then
    ⟨some .eok, true, { m with value := m.value - 1 }.giveTo t (priority t), x⟩
  else if time = 0 then ⟨some .etimeout, false, m, setError t .etimeout x⟩
  else ⟨none, false, m, waitOn h m.flag priority t time c x⟩

def rtMutexTake [DecidableEq ι] (h : ι) (c : Call) (t : ℕ) (time : BitVec 32)
    (priority : ℕ → ℕ) (m : Mutex) (x : Threads ι Call) : Taken Mutex ι Call :=
  let x := setError t .eok x
  if m.owner = some t then ⟨some .eok, true, m.held t, x⟩
  else takeAgain h c t time priority m x

def rtMutexRelease (h : ι) (t : ℕ) (priority : ℕ → ℕ) (m : Mutex) (x : Threads ι Call) :
    Released Mutex ι Call :=
  if m.owner ≠ some t then ⟨.error, none, m, setError t .error x⟩
  else
    let m := m.unheld t
    if m.hold = 0 then
      match x.queue h with
      | w :: _ => ⟨.eok, some w, m.giveTo w (priority w), rtIpcListResume h x⟩
      | [] =>
        ⟨.eok, none,
          { m with value := (m.value + 1) % 2 ^ 16, owner := none, originalPriority := 0xFF }, x⟩
    else ⟨.eok, none, m, x⟩

def rtMutexInit (flag : IpcFlag) : Mutex := ⟨1, 0xFF, 0, none, flag, fun _ ↦ 0⟩

end Mutexes

section Cases

variable [DecidableEq ι] {h : ι} {c : Call} {caller : Option ℕ} {time : BitVec 32}
  {priority : ℕ → ℕ} {sem : Semaphore} {x : Threads ι Call}

theorem rtSemTake_of_pos (hvalue : 0 < sem.value) :
    rtSemTake h c caller time priority sem x =
      ⟨some .eok, true, { sem with value := sem.value - 1 }, x⟩ := by
  simp only [rtSemTake, if_pos hvalue]

theorem rtSemTake_of_no_wait (hvalue : ¬0 < sem.value) (htime : time = 0) :
    rtSemTake h c caller time priority sem x = ⟨some .etimeout, false, sem, x⟩ := by
  simp only [rtSemTake, if_neg hvalue, if_pos htime]

theorem rtSemTake_of_wait (hvalue : ¬0 < sem.value) (htime : time ≠ 0) {t : ℕ} :
    rtSemTake h c (some t) time priority sem x =
      ⟨none, false, sem, waitOn h sem.flag priority t time c (setError t .eok x)⟩ := by
  simp only [rtSemTake, if_neg hvalue, if_neg htime]

theorem rtSemTake_of_handler (hvalue : ¬0 < sem.value) (htime : time ≠ 0) :
    rtSemTake h c none time priority sem x = ⟨none, false, sem, x⟩ := by
  simp only [rtSemTake, if_neg hvalue, if_neg htime]

end Cases

end GiantGecko.Rtos.Takes
