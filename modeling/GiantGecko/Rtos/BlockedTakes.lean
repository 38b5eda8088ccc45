import GiantGecko.Rtos.Takes
import GiantGecko.Rtos.TimerPass

namespace GiantGecko.Rtos.BlockedTakes

open Foundation.Transition Waiting Takes
open TimerPass (TimerSystem rtTimerStart rtTimerStop rtTimerControl rtTimerInit softTurn restart)
open Scheduler (Err IpcFlag)
open Ipc (Semaphore Mutex)
open Timer (Control halfTickMax)

inductive Head
  | sem (i : ℕ)
  | mutex (m : ℕ)
  deriving DecidableEq

/-- What a thread that is suspended waits for. Whether a take has been granted is not in
the source. -/
inductive Call
  | semTake (i : ℕ) (granted : Bool)
  | mutexTake (m : ℕ) (time : BitVec 32) (granted : Bool)
  | delay
  | noTimer

def Call.on : Call → Option Head
  | .semTake i false => some (.sem i)
  | .mutexTake m _ false => some (.mutex m)
  | _ => none

def Call.granted : Call → Bool
  | .semTake _ granted => granted
  | .mutexTake _ _ granted => granted
  | _ => true

def Call.grant : Call → Call
  | .semTake i _ => .semTake i true
  | .mutexTake m time _ => .mutexTake m time true
  | c => c

/-- What a take has returned, and whether it had been granted by then. -/
structure Return where
  caller : Option ℕ
  result : Err
  granted : Bool
  deriving DecidableEq

/-- The soft timers with the thread that calls their functions, all other threads, the
semaphores and the mutexes. Hard timers are those of the threads. -/
structure System where
  timers : TimerSystem
  sem : ℕ → Semaphore
  mutex : ℕ → Mutex
  threads : Threads Head Call
  returned : List Return

def timerThread : ℕ := 0

/-- Whether the timer thread is in the function of a timer, where the scheduler is not
locked. -/
def inCallback (s : System) : Bool :=
  match s.timers.soft with
  | some (.calls _ _) => true
  | _ => false

/-- The timer thread calls from the functions of soft timers only. -/
def mayCall (caller : Option ℕ) (s : System) : Bool :=
  callable caller s.threads && (caller != some timerThread || inCallback s)

def answer (caller : Option ℕ) (result : Option Err) (granted : Bool) (s : System) : System :=
  match result with
  | some e => { s with returned := ⟨caller, e, granted⟩ :: s.returned }
  | none => s

def grantTo (given : Option ℕ) (x : Threads Head Call) : Threads Head Call :=
  match given with
  | some w => setCall w ((x.thread w).call.map Call.grant) x
  | none => x

def semTake (caller : Option ℕ) (i : ℕ) (time : BitVec 32) (priority : ℕ → ℕ) (s : System) :
    System :=
  let r := rtSemTake (.sem i) (.semTake i false) caller time priority (s.sem i) s.threads
  answer caller r.result r.granted
    { s with sem := Function.update s.sem i r.object, threads := r.threads }

def semRelease (i : ℕ) (s : System) : System :=
  let r := rtSemRelease (.sem i) (s.sem i) s.threads
  { s with sem := Function.update s.sem i r.object, threads := grantTo r.given r.threads }

def semReset (i : ℕ) (value : BitVec 32) (s : System) : System :=
  { s with
    sem := Function.update s.sem i { s.sem i with value := value.toNat % 2 ^ 16 }
    threads := rtIpcListResumeAll (.sem i) s.threads }

def tookMutex (t m : ℕ) (r : Taken Mutex Head Call) (s : System) : System :=
  answer (some t) r.result r.granted
    { s with mutex := Function.update s.mutex m r.object, threads := r.threads }

def mutexTake (t m : ℕ) (time : BitVec 32) (priority : ℕ → ℕ) (s : System) : System :=
  tookMutex t m
    (rtMutexTake (.mutex m) (.mutexTake m time false) t time priority (s.mutex m) s.threads) s

def mutexRelease (t m : ℕ) (priority : ℕ → ℕ) (s : System) : System :=
  let r := rtMutexRelease (.mutex m) t priority (s.mutex m) s.threads
  { s with mutex := Function.update s.mutex m r.object, threads := grantTo r.given r.threads }

/-- The timer thread is resumed from wherever it is suspended. -/
def timerStart (n : ℕ) (s : System) : System :=
  let s := { s with timers := rtTimerStart n s.timers }
  if (s.timers.timer n).soft ∧ ¬s.timers.halted then
    { s with threads := rtThreadResume timerThread s.threads }
  else s

def tickMax : BitVec 32 := 0xFFFFFFFF

def rtTimerListNextTimeout (s : TimerSystem) : BitVec 32 :=
  match s.rtSoftTimerList with
  | [] => tickMax
  | n :: _ => (s.timer n).timeoutTick

/-- A turn of the loop of `rt_thread_timer_entry` up to `rt_soft_timer_check`. -/
def timerEntry (s : System) : System :=
  if rtTimerListNextTimeout s.timers = tickMax then
    { s with threads := suspendSelf timerThread .noTimer s.threads }
  else if (rtTimerListNextTimeout s.timers - s.timers.tick).toNat < halfTickMax then
    { s with threads := rtThreadSleep timerThread .delay s.threads }
  else s

def goOn (t : ℕ) (priority : ℕ → ℕ) (s : System) : System :=
  let err := (s.threads.thread t).error
  let back := { s with threads := setCall t none s.threads }
  match (s.threads.thread t).call with
  | none => s
  | some (.semTake _ granted) => answer (some t) (some err) granted back
  | some (.mutexTake m time granted) =>
    if err = .eintr then
      tookMutex t m
        (takeAgain (.mutex m) (.mutexTake m time false) t time priority (back.mutex m) back.threads)
        back
    else answer (some t) (some err) granted back
  | some .delay =>
    if err = .etimeout then { back with threads := setError t .eok back.threads } else back
  | some .noTimer => back

inductive Turn
  | entry
  | check
  | look
  | return

def timerTurn (turn : Turn) (s : System) : System :=
  match turn, s.timers.soft with
  | .entry, none => timerEntry s
  | .check, none =>
    { s with
      timers := { s.timers with soft := some (.look s.timers.rtSoftTimerList.head? s.timers.tick) } }
  | .look, some (.look n currentTick) => { s with timers := softTurn n currentTick s.timers }
  | .return, some (.calls t n) =>
    { s with timers := { restart t s.timers with soft := some (.look n s.timers.tick) } }
  | _, _ => s

inductive Event
  | semTake (caller : Option ℕ) (i : ℕ) (time : BitVec 32) (priority : ℕ → ℕ)
  | semRelease (i : ℕ)
  | semReset (i : ℕ) (value : BitVec 32)
  | mutexTake (t m : ℕ) (time : BitVec 32) (priority : ℕ → ℕ)
  | mutexRelease (t m : ℕ) (priority : ℕ → ℕ)
  | delay (t : ℕ)
  | timerStart (n : ℕ)
  | timerStop (n : ℕ)
  | timerControl (n : ℕ) (cmd : Control)
  | tickIncrease
  | timerTurn (turn : Turn)
  | goOn (t : ℕ) (priority : ℕ → ℕ)
  | timeout (t : ℕ)

def turn (s : System) : Event → System
  | .semTake caller i time priority =>
    if mayCall caller s then semTake caller i time priority s else s
  | .semRelease i => semRelease i s
  | .semReset i value => semReset i value s
  | .mutexTake t m time priority => if mayCall (some t) s then mutexTake t m time priority s else s
  | .mutexRelease t m priority => if mayCall (some t) s then mutexRelease t m priority s else s
  | .delay t =>
    if mayCall (some t) s then { s with threads := rtThreadSleep t .delay s.threads } else s
  | .timerStart n => timerStart n s
  | .timerStop n => { s with timers := (rtTimerStop n s.timers).2 }
  | .timerControl n cmd => { s with timers := rtTimerControl n cmd s.timers }
  | .tickIncrease => { s with timers := { s.timers with tick := s.timers.tick + 1 } }
  | .timerTurn turn => if callable (some timerThread) s.threads then timerTurn turn s else s
  | .goOn t priority => if (s.threads.thread t).suspended then s else goOn t priority s
  | .timeout t => { s with threads := timerEnds t s.threads }

def step (s : System) (e : Event) : System := if s.timers.halted then s else turn s e

def init (initTick : ℕ → BitVec 32) (periodic soft : ℕ → Bool) (value : ℕ → Fin 0x10000)
    (semFlag mutexFlag : ℕ → IpcFlag) : System where
  timers := rtTimerInit initTick periodic soft
  sem i := rtSemInit (value i) (semFlag i)
  mutex m := rtMutexInit (mutexFlag m)
  threads := noneWaits
  returned := []

theorem granted_iff_on {c : Call} : c.granted = true ↔ c.on = none := by
  rcases c with ⟨i, _ | _⟩ | ⟨m, time, _ | _⟩ | _ | _ <;> simp [Call.granted, Call.on]

theorem granted_grant (c : Call) : c.grant.granted = true := by
  cases c with
  | semTake i granted => rfl
  | mutexTake m time granted => rfl
  | delay => rfl
  | noTimer => rfl

/-- The threads with a take that waits until it is granted or fails. -/
structure Quiet (x : Threads Head Call) : Prop where
  parked : Parked Call.on x
  earned : Earned Call.granted x
  uninterrupted : ∀ t, (x.thread t).error ≠ .eintr

variable {x : Threads Head Call} {t : ℕ}

theorem uninterrupted_update (hx : ∀ u, (x.thread u).error ≠ .eintr) {w : Waiter Call}
    (hw : w.error ≠ .eintr) (u : ℕ) : (Function.update x.thread t w u).error ≠ .eintr := by
  obtain rfl | hne := eq_or_ne u t
  · simpa using hw
  · simpa [hne] using hx u

theorem quiet_noneWaits : Quiet noneWaits where
  parked := parked_noneWaits
  earned := earned_noneWaits
  uninterrupted _ := by simp [noneWaits]

theorem Quiet.setError (hx : Quiet x) (ht : (x.thread t).call = none) {e : Err} (he : e ≠ .eintr) :
    Quiet (setError t e x) where
  parked := hx.parked.setError (hx.parked.idle ht) e
  earned := hx.earned.setError ht e
  uninterrupted := uninterrupted_update hx.uninterrupted he

theorem Quiet.back (hx : Quiet x) (ht : (x.thread t).suspended = false) :
    Quiet (setCall t none x) where
  parked := hx.parked.setCall ht none
  earned := hx.earned.back t
  uninterrupted := uninterrupted_update hx.uninterrupted (hx.uninterrupted t)

theorem Quiet.wait (hx : Quiet x) (ht : (x.thread t).suspended = false)
    (herror : (x.thread t).error = .eok) {h : Head} {c : Call} (hc : c.on = some h)
    {flag : IpcFlag} {priority : ℕ → ℕ} {time : BitVec 32} :
    Quiet (waitOn h flag priority t time c x) where
  parked := hx.parked.wait ht herror hc
  earned := hx.earned.wait ht
  uninterrupted := by
    rw [waitOn_eq ht]
    exact uninterrupted_update hx.uninterrupted (hx.uninterrupted t)

theorem Quiet.asleep (hx : Quiet x) (ht : (x.thread t).suspended = false) {w : Waiter Call}
    (hsuspended : w.suspended = true) (herror : w.error = (x.thread t).error) {c : Call}
    (hw : w.call = some c) (hc : c.on = none) : Quiet (x.set t w) where
  parked := hx.parked.asleep ht hsuspended hw hc
  earned := by
    refine hx.earned.update _ ?_
    intro d _ hd
    rw [hsuspended] at hd
    exact Bool.noConfusion hd
  uninterrupted := by
    refine uninterrupted_update hx.uninterrupted ?_
    rw [herror]
    exact hx.uninterrupted t

theorem Quiet.suspendSelf (hx : Quiet x) (ht : (x.thread t).suspended = false) {c : Call}
    (hc : c.on = none) : Quiet (suspendSelf t c x) := by
  simp only [Waiting.suspendSelf, rtThreadSuspend, ht, Bool.false_eq_true, if_false,
    setCall, Threads.set, Function.update_idem, Function.update_self]
  exact hx.asleep ht rfl rfl rfl hc

theorem Quiet.sleep (hx : Quiet x) (ht : (x.thread t).suspended = false) {c : Call}
    (hc : c.on = none) : Quiet (rtThreadSleep t c x) := by
  simp only [rtThreadSleep, Waiting.suspendSelf, rtThreadSuspend, ht, Bool.false_eq_true, if_false,
    setCall, Threads.set, Function.update_idem, Function.update_self]
  exact hx.asleep ht rfl rfl rfl hc

theorem Quiet.timerEnds (hx : Quiet x) (t : ℕ) : Quiet (timerEnds t x) where
  parked := hx.parked.timerEnds t
  earned := hx.earned.timerEnds t
  uninterrupted := by
    rw [Waiting.timerEnds]
    split_ifs
    · exact uninterrupted_update hx.uninterrupted (by simp)
    · exact hx.uninterrupted

theorem Quiet.grant (hx : Quiet x) {h : Head} {l : List ℕ} (hl : x.queue h = t :: l) :
    Quiet (grantTo (some t) (rtIpcListResume h x)) := by
  have hmem : t ∈ x.queue h := by
    rw [hl]
    exact List.mem_cons_self
  obtain ⟨-, -, c, hc, -⟩ := hx.parked.waiting h t hmem
  have heq := hx.parked.listResume_eq hl
  have hgrant : grantTo (some t) (rtIpcListResume h x) =
      setCall t (some c.grant) (rtIpcListResume h x) := by
    simp [grantTo, heq, hc]
  rw [hgrant]
  refine ⟨(hx.parked.listResume h).setCall (by simp [heq]) _,
    hx.earned.listResume hx.parked hl (granted_grant c), ?_⟩
  rw [heq]
  simp only [setCall, Threads.set, Function.update_idem]
  exact uninterrupted_update hx.uninterrupted (by simpa using hx.uninterrupted t)

theorem Quiet.listResumeAll (hx : Quiet x) (h : Head) : Quiet (rtIpcListResumeAll h x) := by
  refine ⟨hx.parked.listResumeAll h, hx.earned.listResumeAll h, ?_⟩
  have huninterrupted := hx.uninterrupted
  rw [rtIpcListResumeAll]
  generalize x.queue h = l
  clear hx
  induction l generalizing x with
  | nil => exact huninterrupted
  | cons t l ih =>
    refine ih ?_
    intro u
    rw [rtThreadResume_error]
    exact uninterrupted_update huninterrupted (by simp) u

/-- A take has returned well only if it has been granted, and otherwise left its
thread to wait. -/
structure Honest {σ : Type} (r : Taken σ Head Call) : Prop where
  granted : r.result = some .eok → r.granted = true
  quiet : Quiet r.threads

variable {caller : Option ℕ} {time : BitVec 32} {priority : ℕ → ℕ}

theorem honest_rtSemTake (hx : Quiet x) (hcaller : callable caller x = true) (i : ℕ)
    (sem : Semaphore) :
    Honest (rtSemTake (.sem i) (.semTake i false) caller time priority sem x) := by
  by_cases hvalue : 0 < sem.value
  · rw [rtSemTake_of_pos hvalue]
    exact ⟨fun _ ↦ rfl, hx⟩
  by_cases htime : time = 0
  · rw [rtSemTake_of_no_wait hvalue htime]
    exact ⟨fun h ↦ by simp at h, hx⟩
  cases caller with
  | none =>
    rw [rtSemTake_of_handler hvalue htime]
    exact ⟨fun h ↦ by simp at h, hx⟩
  | some t =>
    rw [rtSemTake_of_wait hvalue htime]
    refine ⟨fun h ↦ by simp at h, ?_⟩
    refine (hx.setError (Option.isNone_iff_eq_none.mp hcaller) (by decide)).wait ?_ ?_ rfl
    · simpa using hx.parked.callable hcaller
    · simp [setError]

theorem honest_takeAgain (hx : Quiet x) (ht : (x.thread t).call = none)
    (herror : (x.thread t).error = .eok) (m : ℕ) (y : Mutex) :
    Honest (takeAgain (.mutex m) (.mutexTake m time false) t time priority y x) := by
  rw [takeAgain]
  split_ifs
  · exact ⟨fun _ ↦ rfl, hx⟩
  · exact ⟨fun h ↦ by simp at h, hx.setError ht (by decide)⟩
  · exact ⟨fun h ↦ by simp at h, hx.wait (hx.parked.idle ht) herror rfl⟩

theorem honest_rtMutexTake (hx : Quiet x) (ht : (x.thread t).call = none) (m : ℕ) (y : Mutex) :
    Honest (rtMutexTake (.mutex m) (.mutexTake m time false) t time priority y x) := by
  have hx' : Quiet (setError t .eok x) := hx.setError ht (by decide)
  rw [rtMutexTake]
  split_ifs
  · exact ⟨fun _ ↦ rfl, hx'⟩
  · exact honest_takeAgain hx' (by simpa [setError] using ht) (by simp [setError]) m y

theorem quiet_rtSemRelease (hx : Quiet x) (h : Head) (sem : Semaphore) :
    Quiet (grantTo (rtSemRelease h sem x).given (rtSemRelease h sem x).threads) := by
  rw [rtSemRelease]
  cases hqueue : x.queue h with
  | nil => exact hx
  | cons t l => exact hx.grant hqueue

theorem quiet_rtMutexRelease (hx : Quiet x) (ht : (x.thread t).call = none) (h : Head) (y : Mutex) :
    Quiet (grantTo (rtMutexRelease h t priority y x).given
      (rtMutexRelease h t priority y x).threads) := by
  rw [rtMutexRelease]
  dsimp only
  split_ifs
  · exact hx.setError ht (by decide)
  · cases hqueue : x.queue h with
    | nil => exact hx
    | cons w l => exact hx.grant hqueue
  · exact hx

/-- What takes have returned well they had been granted, and so has been what is to be
returned. -/
structure Sound (s : System) : Prop where
  returned : ∀ r ∈ s.returned, r.result = .eok → r.granted = true
  ended : Earned Call.granted s.threads

structure Inv (s : System) : Prop where
  returned : ∀ r ∈ s.returned, r.result = .eok → r.granted = true
  quiet : Quiet s.threads

variable {s : System}

theorem Inv.sound (h : Inv s) : Sound s := ⟨h.returned, h.quiet.earned⟩

theorem Inv.answer (h : Inv s) {result : Option Err} {granted : Bool}
    (hresult : result = some .eok → granted = true) : Inv (answer caller result granted s) := by
  cases result with
  | none => exact h
  | some e =>
    refine ⟨List.forall_mem_cons.mpr ⟨?_, h.returned⟩, h.quiet⟩
    intro he
    exact hresult (congrArg some he)

theorem Inv.withThreads (h : Inv s) {s' : System} (hreturned : s'.returned = s.returned)
    (hquiet : Quiet s'.threads) : Inv s' :=
  ⟨by rw [hreturned]; exact h.returned, hquiet⟩

theorem callable_of_mayCall (hcall : mayCall caller s = true) :
    callable caller s.threads = true := by
  rw [mayCall, Bool.and_eq_true] at hcall
  exact hcall.1

theorem call_of_mayCall (hcall : mayCall (some t) s = true) : (s.threads.thread t).call = none :=
  Option.isNone_iff_eq_none.mp (callable_of_mayCall hcall)

theorem Inv.took (h : Inv s) {m : ℕ} {r : Taken Mutex Head Call} (hr : Honest r) :
    Inv (tookMutex t m r s) := by
  have hs : Inv { s with mutex := Function.update s.mutex m r.object, threads := r.threads } :=
    h.withThreads rfl hr.quiet
  exact hs.answer hr.granted

theorem Inv.semTake (h : Inv s) (hcall : mayCall caller s = true) (i : ℕ) :
    Inv (semTake caller i time priority s) := by
  rw [BlockedTakes.semTake]
  have hr : Honest (rtSemTake (.sem i) (.semTake i false) caller time priority (s.sem i)
      s.threads) := honest_rtSemTake h.quiet (callable_of_mayCall hcall) i (s.sem i)
  revert hr
  generalize rtSemTake (.sem i) (.semTake i false) caller time priority (s.sem i) s.threads = r
  intro hr
  have hs : Inv { s with sem := Function.update s.sem i r.object, threads := r.threads } :=
    h.withThreads rfl hr.quiet
  exact hs.answer hr.granted

theorem rtTimerStart_soft (n : ℕ) (s : TimerSystem) :
    ((rtTimerStart n s).timer n).soft = (s.timer n).soft := by
  rw [rtTimerStart]
  dsimp only
  split_ifs
  · simp [TimerPass.insert, TimerSystem.set, TimerPass.deactivate, TimerPass.rtTimerRemove]
    split_ifs <;> simp
  · simp [TimerSystem.set, TimerPass.deactivate, TimerPass.rtTimerRemove]

theorem rtTimerStart_halted {n : ℕ} {s : TimerSystem} (hs : s.halted = false) :
    (rtTimerStart n s).halted = false ↔ (s.timer n).initTick.toNat < halfTickMax := by
  rw [rtTimerStart]
  dsimp only
  split_ifs with h
  · simp [TimerPass.insert, TimerSystem.set, TimerPass.deactivate, TimerPass.rtTimerRemove] at h ⊢
    split_ifs <;> simp [hs, h]
  · simp [TimerSystem.set, TimerPass.deactivate, TimerPass.rtTimerRemove] at h ⊢
    exact h

/-- Whatever the timer thread is suspended in, it is no take, if a soft timer is
started. -/
def Undisturbed (s : System) : Event → Prop
  | .timerStart n =>
    s.timers.halted = false → (s.timers.timer n).initTick.toNat < halfTickMax →
      (s.timers.timer n).soft = true → ∀ h, timerThread ∉ s.threads.queue h
  | _ => True

theorem Quiet.resume (hx : Quiet x) (ht : ∀ h, t ∉ x.queue h) : Quiet (rtThreadResume t x) := by
  refine ⟨hx.parked.resume t, ?_, fun u ↦ by simpa using hx.uninterrupted u⟩
  rw [rtThreadResume]
  split_ifs with hsuspended
  · refine hx.earned.update _ ?_
    intro c hc _ _
    obtain ⟨d, hd, hon⟩ := hx.parked.suspended t hsuspended
    have hcd : d = c := Option.some.inj (hd.symm.trans hc)
    rw [granted_iff_on, ← hcd]
    refine Option.eq_none_iff_forall_not_mem.mpr ?_
    intro i hi
    exact ht i (hon i hi)
  · exact hx.earned

theorem Inv.timerStart (h : Inv s) (hhalted : s.timers.halted = false) {n : ℕ}
    (hcalm : Undisturbed s (.timerStart n)) : Inv (timerStart n s) := by
  rw [BlockedTakes.timerStart]
  dsimp only
  split_ifs with hsoft
  · have htick := (rtTimerStart_halted hhalted).mp (by simpa using hsoft.2)
    rw [rtTimerStart_soft] at hsoft
    exact h.withThreads rfl (h.quiet.resume (hcalm hhalted htick hsoft.1))
  · exact h.withThreads rfl h.quiet

theorem Inv.timerEntry (h : Inv s) (ht : (s.threads.thread timerThread).suspended = false) :
    Inv (timerEntry s) := by
  rw [BlockedTakes.timerEntry]
  split_ifs
  · exact h.withThreads rfl (h.quiet.suspendSelf ht rfl)
  · exact h.withThreads rfl (h.quiet.sleep ht rfl)
  · exact h

theorem Inv.timerTurn (h : Inv s) (ht : (s.threads.thread timerThread).suspended = false)
    (turn : Turn) : Inv (timerTurn turn s) := by
  unfold BlockedTakes.timerTurn
  split
  · exact h.timerEntry ht
  · exact h.withThreads rfl h.quiet
  · exact h.withThreads rfl h.quiet
  · exact h.withThreads rfl h.quiet
  · exact h

theorem Inv.goOn (h : Inv s) (ht : (s.threads.thread t).suspended = false) :
    Inv (goOn t priority s) := by
  have hquiet := h.quiet.back ht
  have hback : Inv { s with threads := setCall t none s.threads } := h.withThreads rfl hquiet
  rw [BlockedTakes.goOn]
  cases hc : (s.threads.thread t).call with
  | none => exact h
  | some c =>
    have hgranted : some (s.threads.thread t).error = some Err.eok → c.granted = true :=
      fun herror ↦ h.quiet.earned t c hc ht (Option.some.inj herror)
    cases c with
    | semTake i granted => exact hback.answer hgranted
    | mutexTake m time granted =>
      dsimp only
      rw [if_neg (h.quiet.uninterrupted t)]
      exact hback.answer hgranted
    | delay =>
      dsimp only
      split_ifs
      · exact hback.withThreads rfl (hquiet.setError (by simp [setCall]) (by decide))
      · exact hback
    | noTimer => exact hback

theorem inv_step (s : System) (e : Event) (h : Inv s) (hcalm : Undisturbed s e) :
    Inv (step s e) := by
  rw [step]
  split_ifs with hhalted
  · exact h
  · cases e with
    | semTake caller i time priority =>
      rw [turn]
      split_ifs with hcall
      · exact h.semTake hcall i
      · exact h
    | semRelease i => exact h.withThreads rfl (quiet_rtSemRelease h.quiet (.sem i) (s.sem i))
    | semReset i value => exact h.withThreads rfl (h.quiet.listResumeAll (.sem i))
    | mutexTake t m time priority =>
      rw [turn]
      split_ifs with hcall
      · exact h.took (honest_rtMutexTake h.quiet (call_of_mayCall hcall) m (s.mutex m))
      · exact h
    | mutexRelease t m priority =>
      rw [turn]
      split_ifs with hcall
      · exact h.withThreads rfl
          (quiet_rtMutexRelease h.quiet (call_of_mayCall hcall) (.mutex m) (s.mutex m))
      · exact h
    | delay t =>
      rw [turn]
      split_ifs with hcall
      · exact h.withThreads rfl
          (h.quiet.sleep (h.quiet.parked.callable (callable_of_mayCall hcall)) rfl)
      · exact h
    | timerStart n => exact h.timerStart (by simpa using hhalted) hcalm
    | timerStop n => exact h.withThreads rfl h.quiet
    | timerControl n cmd => exact h.withThreads rfl h.quiet
    | tickIncrease => exact h.withThreads rfl h.quiet
    | timerTurn turn =>
      rw [BlockedTakes.turn]
      split_ifs with hcall
      · exact h.timerTurn (h.quiet.parked.callable hcall) turn
      · exact h
    | goOn t priority =>
      rw [turn]
      split_ifs with hsuspended
      · exact h
      · exact h.goOn (by simpa using hsuspended)
    | timeout t => exact h.withThreads rfl (h.quiet.timerEnds t)

/-- Any start of a soft timer ends the take in which the timer thread waits. -/
theorem not_sound_timerStart (h : Inv s) {n : ℕ} (hcalm : ¬Undisturbed s (.timerStart n)) :
    ¬Sound (step s (.timerStart n)) := by
  intro hsound
  simp only [Undisturbed, not_forall, not_not] at hcalm
  obtain ⟨hhalted, htick, hsoft, i, hmem⟩ := hcalm
  have hrunning := (rtTimerStart_halted hhalted).mpr htick
  obtain ⟨hsuspended, herror, c, hc, hon⟩ := h.quiet.parked.waiting i timerThread hmem
  have hthreads : (step s (.timerStart n)).threads = rtThreadResume timerThread s.threads := by
    simp [step, turn, timerStart, hhalted, hrunning, rtTimerStart_soft, hsoft]
  have hearned := hsound.ended
  rw [hthreads, resume_of_suspended hsuspended] at hearned
  have hgranted := hearned timerThread c (by simpa using hc) (by simp) (by simpa using herror)
  rw [granted_iff_on.mp hgranted] at hon
  cases hon

theorem sound_step_iff (h : Inv s) (e : Event) : Sound (step s e) ↔ Undisturbed s e := by
  constructor
  · intro hsound
    by_contra hcalm
    cases e with
    | timerStart n => exact not_sound_timerStart h hcalm hsound
    | _ => exact hcalm trivial
  · exact fun hcalm ↦ (inv_step s e h hcalm).sound

/-- A take is ended by its own event in every state of a run exactly if no soft timer is
started while the timer thread waits in a take. -/
theorem sound_run_iff (initTick : ℕ → BitVec 32) (periodic soft : ℕ → Bool)
    (value : ℕ → Fin 0x10000) (semFlag mutexFlag : ℕ → IpcFlag) (es : List Event) :
    let s := init initTick periodic soft value semFlag mutexFlag
    Sound s ∧ Along step (fun s e ↦ Sound (step s e)) s es ↔ Along step Undisturbed s es := by
  intro s
  have hinit : Inv s := ⟨fun r hr ↦ absurd hr List.not_mem_nil, quiet_noneWaits⟩
  rw [and_iff_right hinit.sound]
  exact along_congr inv_step (fun _ e h ↦ sound_step_iff h e) hinit es

/-- The function of the first soft timer takes a semaphore that has no token. Another
thread starts the second soft timer. -/
def spuriousWakeUp : List Event :=
  [.timerStart 0, .timerTurn .check, .timerTurn .look,
    .semTake (some timerThread) 0 (-1) fun _ ↦ 10, .timerStart 1, .goOn timerThread fun _ ↦ 10]

theorem not_sound :
    ¬Sound (spuriousWakeUp.foldl step
      (init (fun _ ↦ 0) (fun _ ↦ false) (fun _ ↦ true) (fun _ ↦ 0) (fun _ ↦ .fifo) fun _ ↦ .prio)) := by
  intro h
  exact absurd h.returned (by decide)

end GiantGecko.Rtos.BlockedTakes
