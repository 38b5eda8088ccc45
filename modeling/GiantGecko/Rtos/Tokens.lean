import GiantGecko.Foundation.Transition
import GiantGecko.Rtos.Takes

namespace GiantGecko.Rtos.Tokens

open Foundation.Transition Waiting Takes
open Scheduler (Err IpcFlag)
open Ipc (Semaphore)

structure Take where
  granted : Bool

/-- A semaphore with the threads. How many releases there have been, how many takes
have been granted, and what those that are over have returned, each with whether it
has been granted, is not in the source. -/
structure System where
  sem : Semaphore
  threads : Threads Unit Take
  released : ℕ
  granted : ℕ
  returned : List (Err × Bool)

inductive Event
  | take (caller : Option ℕ) (time : BitVec 32) (priority : ℕ → ℕ)
  | release
  | goOn (t : ℕ)
  | timeout (t : ℕ)

def init (value : Fin 0x10000) (flag : IpcFlag) : System :=
  ⟨rtSemInit value flag, noneWaits, 0, 0, []⟩

def record (r : Taken Semaphore Unit Take) (s : System) : System :=
  { s with
    sem := r.object
    threads := r.threads
    granted := if r.granted then s.granted + 1 else s.granted
    returned :=
      match r.result with
      | some e => (e, r.granted) :: s.returned
      | none => s.returned }

def take (caller : Option ℕ) (time : BitVec 32) (priority : ℕ → ℕ) (s : System) : System :=
  record (rtSemTake () ⟨false⟩ caller time priority s.sem s.threads) s

def release (s : System) : System :=
  let r := rtSemRelease () s.sem s.threads
  match r.given with
  | some t =>
    { s with
      sem := r.object
      threads := setCall t (some ⟨true⟩) r.threads
      released := s.released + 1
      granted := s.granted + 1 }
  | none => { s with sem := r.object, threads := r.threads, released := s.released + 1 }

def goOn (t : ℕ) (s : System) : System :=
  match (s.threads.thread t).call with
  | some c =>
    if (s.threads.thread t).suspended then s
    else
      { s with
        threads := setCall t none s.threads
        returned := ((s.threads.thread t).error, c.granted) :: s.returned }
  | none => s

def step (s : System) : Event → System
  | .take caller time priority =>
    if callable caller s.threads then take caller time priority s else s
  | .release => release s
  | .goOn t => goOn t s
  | .timeout t => { s with threads := timerEnds t s.threads }

/-- Tokens are neither lost nor made, nobody waits for one that is there, and a take that
returns well has got one. -/
structure Conserved (value : ℕ) (s : System) : Prop where
  tokens : s.sem.value + s.granted = value + s.released
  waiting : ∀ t, (s.threads.thread t).suspended = true → s.sem.value = 0
  returned : ∀ r ∈ s.returned, r.1 = .eok → r.2 = true

structure Inv (value : ℕ) (s : System) : Prop extends Conserved value s where
  parked : Parked (fun _ ↦ some ()) s.threads
  small : s.sem.value < 2 ^ 16
  earned : Earned Take.granted s.threads

variable {value : ℕ} {s : System}

theorem inv_init (value : Fin 0x10000) (flag : IpcFlag) : Inv value (init value flag) where
  tokens := rfl
  waiting _ ht := absurd ht Bool.false_ne_true
  returned _ hr := absurd hr List.not_mem_nil
  parked := parked_noneWaits
  small := value.isLt
  earned := earned_noneWaits

theorem inv_take (h : Inv value s) {caller : Option ℕ} {time : BitVec 32} {priority : ℕ → ℕ}
    (hcaller : callable caller s.threads = true) : Inv value (take caller time priority s) := by
  by_cases hvalue : 0 < s.sem.value
  · rw [take, rtSemTake_of_pos hvalue]
    have hreturned : ∀ r ∈ (Err.eok, true) :: s.returned, r.1 = .eok → r.2 = true :=
      List.forall_mem_cons.mpr ⟨fun _ ↦ rfl, h.returned⟩
    refine ⟨⟨?_, ?_, hreturned⟩, h.parked, ?_, h.earned⟩
    · have htokens := h.tokens
      simp only [record, if_true]
      omega
    · intro t ht
      have hzero := h.waiting t ht
      omega
    · have hsmall := h.small
      simp only [record]
      omega
  by_cases htime : time = 0
  · rw [take, rtSemTake_of_no_wait hvalue htime]
    have hreturned : ∀ r ∈ (Err.etimeout, false) :: s.returned, r.1 = .eok → r.2 = true :=
      List.forall_mem_cons.mpr ⟨fun hr ↦ absurd hr (by decide), h.returned⟩
    exact ⟨⟨h.tokens, h.waiting, hreturned⟩, h.parked, h.small, h.earned⟩
  cases caller with
  | none =>
    rw [take, rtSemTake_of_handler hvalue htime]
    exact ⟨⟨h.tokens, h.waiting, h.returned⟩, h.parked, h.small, h.earned⟩
  | some t =>
    have ht := h.parked.callable hcaller
    have ht' : ((setError t .eok s.threads).thread t).suspended = false := by
      simpa [setError] using ht
    have hearned := h.earned.setError (Option.isNone_iff_eq_none.mp hcaller) .eok
    rw [take, rtSemTake_of_wait hvalue htime]
    refine ⟨⟨h.tokens, fun _ _ ↦ Nat.eq_zero_of_not_pos hvalue, h.returned⟩, ?_, h.small, ?_⟩
    · exact (h.parked.setError ht .eok).wait ht' (by simp [setError]) rfl
    · exact hearned.wait ht'

/-- A release does not find a value that is as large as it gets. -/
def Fits (s : System) : Event → Prop
  | .release => s.threads.queue () = [] → s.sem.value + 1 < 2 ^ 16
  | _ => True

theorem inv_release (h : Inv value s) (hfits : Fits s .release) : Inv value (release s) := by
  have htokens := h.tokens
  rw [release, rtSemRelease]
  cases hqueue : s.threads.queue () with
  | nil =>
    have hvalue : (s.sem.value + 1) % 2 ^ 16 = s.sem.value + 1 := Nat.mod_eq_of_lt (hfits hqueue)
    refine ⟨⟨?_, ?_, h.returned⟩, h.parked, ?_, h.earned⟩
    · simp only [hvalue]
      omega
    · intro t ht
      obtain ⟨c, -, hon⟩ := h.parked.suspended t ht
      have hmem := hon () rfl
      rw [hqueue] at hmem
      exact absurd hmem List.not_mem_nil
    · simp only [hvalue]
      exact hfits hqueue
  | cons t l =>
    have hmem : t ∈ s.threads.queue () := by
      rw [hqueue]
      exact List.mem_cons_self
    have hzero := h.waiting t (h.parked.waiting () t hmem).1
    have hparked : Parked (fun _ ↦ some ()) (setCall t (some ⟨true⟩) (rtIpcListResume () s.threads)) :=
      (h.parked.listResume ()).setCall (by simp [h.parked.listResume_eq hqueue]) _
    refine ⟨⟨?_, ?_, h.returned⟩, hparked, h.small, h.earned.listResume h.parked hqueue rfl⟩
    · simp only
      omega
    · exact fun _ _ ↦ hzero

theorem inv_goOn (h : Inv value s) (t : ℕ) : Inv value (goOn t s) := by
  rw [goOn]
  split
  · rename_i c hc
    split_ifs with hsuspended
    · exact h
    · have ht : (s.threads.thread t).suspended = false := by simpa using hsuspended
      refine ⟨⟨h.tokens, ?_, ?_⟩, h.parked.setCall ht none, h.small, h.earned.back t⟩
      · intro u hu
        refine h.waiting u ?_
        rwa [setCall_suspended] at hu
      · exact List.forall_mem_cons.mpr ⟨fun hr ↦ h.earned t c hc ht hr, h.returned⟩
  · exact h

theorem inv_timeout (h : Inv value s) (t : ℕ) :
    Inv value { s with threads := timerEnds t s.threads } := by
  refine ⟨⟨h.tokens, ?_, h.returned⟩, h.parked.timerEnds t, h.small, h.earned.timerEnds t⟩
  intro u hu
  exact h.waiting u (suspended_of_timerEnds hu)

theorem inv_step (s : System) (e : Event) (h : Inv value s) (hfits : Fits s e) :
    Inv value (step s e) := by
  cases e with
  | take caller time priority =>
    rw [step]
    split_ifs with hcaller
    · exact inv_take h hcaller
    · exact h
  | release => exact inv_release h hfits
  | goOn t => exact inv_goOn h t
  | timeout t => exact inv_timeout h t

theorem not_conserved_release (h : Inv value s) (hfits : ¬Fits s .release) :
    ¬Conserved value (step s .release) := by
  intro hconserved
  obtain ⟨hqueue, hvalue⟩ := Classical.not_imp.mp hfits
  have htokens := h.tokens
  have hafter := hconserved.tokens
  have hsmall := h.small
  simp only [step, release, rtSemRelease, hqueue] at hafter
  omega

theorem conserved_step_iff (h : Inv value s) (e : Event) :
    Conserved value (step s e) ↔ Fits s e := by
  constructor
  · intro hconserved
    by_contra hfits
    cases e with
    | release => exact not_conserved_release h hfits hconserved
    | take caller time priority => exact hfits trivial
    | goOn t => exact hfits trivial
    | timeout t => exact hfits trivial
  · exact fun hfits ↦ (inv_step s e h hfits).toConserved

/-- Tokens are conserved in every state of a run exactly if no release comes with the
value at its maximum and nobody waiting. -/
theorem conserved_run_iff (value : Fin 0x10000) (flag : IpcFlag) (es : List Event) :
    Conserved value (init value flag) ∧
        Along step (fun s e ↦ Conserved value (step s e)) (init value flag) es ↔
      Along step Fits (init value flag) es := by
  have hinit := inv_init value flag
  rw [and_iff_right hinit.toConserved]
  exact along_congr inv_step (fun _ e h ↦ conserved_step_iff h e) hinit es

theorem releases (hqueue : s.threads.queue () = []) (hsmall : s.sem.value < 2 ^ 16) (n : ℕ) :
    (List.replicate n Event.release).foldl step s =
      { s with
        sem := { s.sem with value := (s.sem.value + n) % 2 ^ 16 }
        released := s.released + n } := by
  induction n with
  | zero =>
    have hvalue : (s.sem.value + 0) % 2 ^ 16 = s.sem.value := Nat.mod_eq_of_lt hsmall
    rw [hvalue]
    rfl
  | succ n ih =>
    rw [List.replicate_succ', List.foldl_append, ih]
    simp only [List.foldl_cons, List.foldl_nil, step, release, rtSemRelease, hqueue,
      Nat.mod_add_mod, Nat.add_assoc]

theorem not_conserved :
    ¬Conserved 0 ((List.replicate 0x10000 Event.release).foldl step (init 0 .fifo)) := by
  intro h
  have htokens := h.tokens
  rw [releases rfl (by decide)] at htokens
  exact absurd htokens (by decide)

end GiantGecko.Rtos.Tokens
