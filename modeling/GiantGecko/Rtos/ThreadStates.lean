import GiantGecko.Foundation.Transition
import GiantGecko.Rtos.Schedule

namespace GiantGecko.Rtos.ThreadStates

open Foundation.Intrusive Foundation.Transition
open Scheduler (Sched Head IpcFlag Consistent rtThreadPriorityMax)

inductive Stat
  | init
  | ready
  | suspend
  | running
  | close
  deriving DecidableEq

/-- Threads are addresses; `rt_current_thread` is 0, or `RT_NULL`, until the scheduler is
started. A closed thread is to the scheduler as one that has not been started, and its
node is linked in `rtThreadDefunct` if at all. -/
structure System where
  sched : Sched
  closed : ℕ → Bool
  rtThreadDefunct : List ℕ

def System.stat (s : System) (t : ℕ) : Stat :=
  if s.closed t then .close
  else
    match s.sched.stat t with
    | .init => .init
    | .ready => .ready
    | .running => .running
    | .suspend => .suspend

def onSched (f : Sched → Sched) (s : System) : System := { s with sched := f s.sched }

def rtSchedule (s : System) : System :=
  if s.sched.currentThread = 0 then s else onSched Scheduler.rtSchedule s

def rtSystemSchedulerStart (s : System) : System :=
  onSched (fun x ↦
    let toThread := Scheduler.getHighestPriorityThread x
    let x := Scheduler.rtScheduleRemoveThread toThread { x with currentThread := toThread }
    { x with stat := Function.update x.stat toThread .running }) s

def rtThreadStartup (t : ℕ) (s : System) : System :=
  match Scheduler.rtThreadStartup t s.sched with
  | some x => rtSchedule { s with sched := x }
  | none => s

def rtScheduleRemoveThread (t : ℕ) (s : System) : System :=
  { s with
    sched := Scheduler.rtScheduleRemoveThread t s.sched
    rtThreadDefunct := s.rtThreadDefunct.filter (· ≠ t) }

def rtThreadDelete (t : ℕ) (s : System) : System :=
  let s := if s.stat t = .init then s else rtScheduleRemoveThread t s
  { sched :=
      { s.sched with
        threadTimer := Function.update s.sched.threadTimer t false
        stat := Function.update s.sched.stat t .init }
    closed := Function.update s.closed t true
    rtThreadDefunct := t :: s.rtThreadDefunct }

def rtThreadIdleExcute (s : System) : System := { s with rtThreadDefunct := s.rtThreadDefunct.tail }

def rtEnterCritical (s : System) : System :=
  onSched (fun x ↦ { x with lockNest := x.lockNest + 1 }) s

def rtExitCritical (s : System) : System :=
  let s := onSched (fun x ↦ { x with lockNest := x.lockNest - 1 }) s
  if s.sched.lockNest = 0 then rtSchedule s else s

def waitOn (h : Head) (flag : IpcFlag) (time : BitVec 32) (s : System) : System :=
  onSched (fun x ↦ Scheduler.startThreadTimer x.currentThread time
    (Scheduler.rtIpcListSuspend h x.currentThread flag x)) s

inductive Event
  | startup (t : ℕ)
  | resume (t : ℕ)
  | suspend (t : ℕ)
  | timeout (t : ℕ)
  | schedule
  | changePriority (t priority : ℕ)
  | delete (t : ℕ)
  | schedulerStart
  | wait (h : Head) (flag : IpcFlag) (time : BitVec 32)
  | enterCritical
  | exitCritical
  | idleExcute

/-- What a call asserts before it does anything. The timer of a thread comes only after
the scheduler has been started, and it is started once, with a thread that is READY. -/
def asserts (s : System) : Event → Bool
  | .startup t => t ≠ 0 ∧ s.stat t = .init
  | .resume t => t ≠ 0
  | .suspend t => t ≠ 0 ∧ (s.stat t = .running → t = s.sched.currentThread)
  | .timeout t => t ≠ 0 ∧ s.stat t = .suspend ∧ s.sched.currentThread ≠ 0
  | .schedule => true
  | .changePriority t _ => t ≠ 0
  | .delete t => t ≠ 0
  | .schedulerStart => s.sched.currentThread = 0 ∧ s.sched.readyPriorityGroup ≠ 0
  | .wait h _ _ => h.waits ∧ s.stat s.sched.currentThread = .running
  | .enterCritical => true
  | .exitCritical => true
  | .idleExcute => true

def perform (s : System) : Event → System
  | .startup t => rtThreadStartup t s
  | .resume t => onSched (Scheduler.rtThreadResume t) s
  | .suspend t => onSched (Scheduler.rtThreadSuspend t) s
  | .timeout t => onSched (Scheduler.rtThreadTimeout t) s
  | .schedule => rtSchedule s
  | .changePriority t priority => onSched (Scheduler.rtThreadChangePriority t priority) s
  | .delete t => rtThreadDelete t s
  | .schedulerStart => rtSystemSchedulerStart s
  | .wait h flag time => waitOn h flag time s
  | .enterCritical => rtEnterCritical s
  | .exitCritical => rtExitCritical s
  | .idleExcute => rtThreadIdleExcute s

def step (s : System) (e : Event) : System := if asserts s e then perform s e else s

variable {s : System} {t : ℕ}

/-- Every thread has been initialised, with a priority that has passed the assertion of
`_rt_thread_init`, and none is started. -/
def init (priority : ℕ → ℕ) : System where
  sched :=
    { initPriority := priority
      currentPriority := priority
      numberMask := fun _ ↦ 0
      stat := fun _ ↦ .init
      error := fun _ ↦ .eok
      threadTimer := fun _ ↦ false
      queue := fun _ ↦ []
      readyPriorityGroup := 0
      currentThread := 0
      lockNest := 0 }
  closed _ := false
  rtThreadDefunct := []

def after (priority : ℕ → ℕ) (es : List Event) : System := es.foldl step (init priority)

/-- A READY thread is linked once, in the list of its priority, which is one of the
table; and no other thread is linked there. -/
structure Represents (s : System) : Prop where
  group : ∀ p < rtThreadPriorityMax,
    s.sched.readyPriorityGroup.getLsbD p = true ↔ s.sched.queue (.ready p) ≠ []
  priority : ∀ t, s.stat t = .ready → s.sched.currentPriority t < rtThreadPriorityMax
  linked : ∀ t, s.stat t = .ready →
    (s.sched.queue (.ready (s.sched.currentPriority t))).count t = 1 ∧
      (∀ h ≠ .ready (s.sched.currentPriority t), t ∉ s.sched.queue h) ∧ t ∉ s.rtThreadDefunct
  ready : ∀ t p, t ∈ s.sched.queue (.ready p) → s.stat t = .ready

def MaskOfPriority (s : System) (t : ℕ) : Prop :=
  s.sched.numberMask t = 1#32 <<< s.sched.currentPriority t

instance : Decidable (MaskOfPriority s t) := inferInstanceAs (Decidable (_ = _))

/-- The mask of a thread that has not been started may be 0, and so may be the one of a
closed thread. -/
def Masked (s : System) (t : ℕ) : Prop :=
  MaskOfPriority s t ∨ s.sched.numberMask t = 0 ∧ (s.stat t = .init ∨ s.stat t = .close)

def InRange : Event → Prop
  | .changePriority _ priority => priority < rtThreadPriorityMax
  | _ => True

structure Inv (s : System) : Prop where
  consistent : Consistent s.sched
  init_lt : ∀ t, s.sched.initPriority t < 32
  mask : ∀ t, MaskOfPriority s t ∨ s.sched.numberMask t = 0
  closed : ∀ t, s.closed t = true → s.sched.stat t = .init
  defunct : ∀ t ∈ s.rtThreadDefunct, s.closed t = true

variable {u p : ℕ} {priority : ℕ → ℕ} {x : Sched}

theorem stat_eq_ready : s.stat t = .ready ↔ s.closed t = false ∧ s.sched.stat t = .ready := by
  unfold System.stat
  cases s.closed t <;> cases s.sched.stat t <;> simp

theorem stat_eq_suspend : s.stat t = .suspend ↔ s.closed t = false ∧ s.sched.stat t = .suspend := by
  unfold System.stat
  cases s.closed t <;> cases s.sched.stat t <;> simp

theorem stat_eq_running : s.stat t = .running ↔ s.closed t = false ∧ s.sched.stat t = .running := by
  unfold System.stat
  cases s.closed t <;> cases s.sched.stat t <;> simp

theorem stat_eq_init : s.stat t = .init ↔ s.closed t = false ∧ s.sched.stat t = .init := by
  unfold System.stat
  cases s.closed t <;> cases s.sched.stat t <;> simp

theorem Inv.represents (h : Inv s) : Represents s := by
  refine ⟨h.consistent.group, fun t _ ↦ h.consistent.priority t, ?_, ?_⟩
  · intro t ht
    obtain ⟨hopen, hready⟩ := stat_eq_ready.mp ht
    have hmem := (h.consistent.ready t _).mpr ⟨hready, rfl⟩
    refine ⟨List.count_eq_one_of_mem (h.consistent.linked.nodup _) hmem, ?_, ?_⟩
    · exact fun i hi hin ↦ hi (h.consistent.linked.one _ _ t hin hmem)
    · intro hin
      rw [h.defunct t hin] at hopen
      cases hopen
  · intro t p hmem
    have hready := ((h.consistent.ready t p).mp hmem).1
    refine stat_eq_ready.mpr ⟨?_, hready⟩
    by_contra hclosed
    rw [h.closed t (by simpa using hclosed)] at hready
    cases hready

structure Keeps (x y : Sched) : Prop where
  consistent : Consistent y
  initPriority : y.initPriority = x.initPriority
  currentPriority : y.currentPriority = x.currentPriority
  numberMask : y.numberMask = x.numberMask
  init : ∀ t, x.stat t = .init → y.stat t = .init

variable {y z : Sched}

theorem Keeps.trans (h : Keeps x y) (h' : Keeps y z) : Keeps x z where
  consistent := h'.consistent
  initPriority := h'.initPriority.trans h.initPriority
  currentPriority := h'.currentPriority.trans h.currentPriority
  numberMask := h'.numberMask.trans h.numberMask
  init t ht := h'.init t (h.init t ht)

theorem Inv.keeps (h : Inv s) (hx : Keeps s.sched x) : Inv { s with sched := x } where
  consistent := hx.consistent
  init_lt t := by
    have hlt := h.init_lt t
    rwa [← hx.initPriority] at hlt
  mask t := by
    have hmask := h.mask t
    simp only [MaskOfPriority, ← hx.numberMask, ← hx.currentPriority] at hmask
    exact hmask
  closed t ht := hx.init t (h.closed t ht)
  defunct := h.defunct

theorem init_of_update {stat : ℕ → Scheduler.Stat} {b : Scheduler.Stat} (hu : stat u = .init)
    (ht : stat t ≠ .init) : Function.update stat t b u = .init := by
  rw [Function.update_of_ne]
  · exact hu
  · rintro rfl
    exact ht hu

theorem closed_of_update {closed : ℕ → Bool} (hu : closed u = true) :
    Function.update closed t true u = true := by
  rw [Function.update_apply, hu, ite_self]

theorem keeps_resume (hx : Consistent x) (t : ℕ) : Keeps x (Scheduler.rtThreadResume t x) := by
  refine ⟨hx.resume t, by simp, by simp, ?_, ?_⟩
  · rw [Scheduler.rtThreadResume]
    split_ifs <;> simp
  · intro u hu
    rw [Scheduler.rtThreadResume]
    split_ifs with hsuspend
    · rw [Scheduler.rtScheduleInsertThread_stat]
      exact init_of_update hu (by simp [hsuspend])
    · exact hu

theorem keeps_suspend (hx : Consistent x) (t : ℕ) : Keeps x (Scheduler.rtThreadSuspend t x) := by
  refine ⟨hx.suspend t, ?_, ?_, ?_, ?_⟩
  · rw [Scheduler.rtThreadSuspend]
    split_ifs <;> simp
  · rw [Scheduler.rtThreadSuspend]
    split_ifs <;> simp
  · rw [Scheduler.rtThreadSuspend]
    split_ifs <;> simp
  · intro u hu
    rw [Scheduler.rtThreadSuspend]
    split_ifs with hstat
    · simp only [Scheduler.rtScheduleRemoveThread_stat]
      exact init_of_update hu (by obtain hstat | hstat := hstat <;> simp [hstat])
    · exact hu

theorem keeps_schedule (hx : Consistent x) : Keeps x (Scheduler.rtSchedule x) := by
  refine ⟨hx.schedule, by simp, by simp, by simp, ?_⟩
  intro u hu
  rw [Scheduler.rtSchedule]
  split_ifs with hgo hstays
  · simp only [Scheduler.rtScheduleRemoveThread_stat, Scheduler.rtScheduleRemoveThread_currentThread]
    refine init_of_update hu ?_
    obtain ⟨hrunning, -⟩ | hfirst := hstays
    · simp [hrunning]
    · rw [← hfirst, (hx.highest hgo.2).1]
      decide
  · rw [Scheduler.switchThread_eq]
    simp only [Scheduler.rtScheduleRemoveThread_stat]
    have hready := (hx.highest hgo.2).1
    have hparted (v : ℕ) : (Scheduler.parted x).stat v = .init ↔ x.stat v = .init := by
      rw [Scheduler.parted]
      split_ifs with hrunning
      · rw [Scheduler.rtScheduleInsertThread_stat, Function.update_apply]
        split_ifs <;> simp_all
      · rfl
    refine init_of_update ((hparted u).mpr hu) ?_
    rw [Ne, hparted, hready]
    decide
  · exact hu

theorem keeps_insert (hx : x.stat t = .suspend) (hy : Consistent (Scheduler.rtScheduleInsertThread t y))
    (hstat : y.stat = x.stat) (hinit : y.initPriority = x.initPriority)
    (hpriority : y.currentPriority = x.currentPriority) (hmask : y.numberMask = x.numberMask) :
    Keeps x (Scheduler.rtScheduleInsertThread t y) := by
  refine ⟨hy, by simpa using hinit, by simpa using hpriority, by simpa using hmask, ?_⟩
  intro u hu
  rw [Scheduler.rtScheduleInsertThread_stat, hstat]
  exact init_of_update hu (by simp [hx])

theorem keeps_timeout (hx : Consistent x) (hsuspend : x.stat t = .suspend) :
    Keeps x (Scheduler.rtThreadTimeout t x) := by
  have hinsert := keeps_insert hsuspend (hx.timedOut hsuspend) rfl rfl rfl rfl
  exact hinsert.trans (keeps_schedule hinsert.consistent)

theorem keeps_wait {h : Head} (hx : Consistent x) (hrunning : x.stat x.currentThread = .running)
    (hh : h.waits) (flag : IpcFlag) (time : BitVec 32) :
    Keeps x (Scheduler.startThreadTimer x.currentThread time
      (Scheduler.rtIpcListSuspend h x.currentThread flag x)) := by
  have hdetached := hx.detached hrunning
  have hperm : (Scheduler.waitersWith flag x.currentPriority x.currentThread (x.queue h)).Perm
      (x.currentThread :: x.queue h) := Scheduler.waitersWith_perm
  rw [hx.block_eq hrunning flag time]
  refine ⟨?_, rfl, rfl, rfl, ?_⟩
  · refine hdetached.suspended (hx.linked.update hdetached.unlinked hperm) (fun p ↦ ?_)
      (fun i u _ hmem ↦ ((mem_update_perm hperm).mp hmem).imp_right And.left) _
    refine Function.update_of_ne ?_ _ _
    rintro rfl
    cases hh
  · exact fun u hu ↦ init_of_update hu (by simp [hrunning])

theorem Inv.schedule (h : Inv s) : Inv (rtSchedule s) := by
  rw [rtSchedule]
  split_ifs
  · exact h
  · exact h.keeps (keeps_schedule h.consistent)

theorem Inv.changePriority (h : Inv s) (hp : p < 32) (t : ℕ) :
    Inv (onSched (Scheduler.rtThreadChangePriority t p) s) := by
  have hpriority : (Scheduler.rtThreadChangePriority t p s.sched).currentPriority =
      Function.update s.sched.currentPriority t p := Scheduler.rtThreadChangePriority_currentPriority
  have hmask : (Scheduler.rtThreadChangePriority t p s.sched).numberMask =
      Function.update s.sched.numberMask t (1#32 <<< p) := by
    rw [Scheduler.rtThreadChangePriority]
    split_ifs <;> simp [Scheduler.setPriority]
  refine ⟨h.consistent.changePriority hp t, fun u ↦ ?_, fun u ↦ ?_, fun u hu ↦ ?_, h.defunct⟩
  · simpa only [onSched, Scheduler.rtThreadChangePriority_initPriority] using h.init_lt u
  · simp only [MaskOfPriority, onSched, hpriority, hmask]
    obtain rfl | hut := eq_or_ne u t
    · simp
    · simp only [Function.update_of_ne hut]
      exact h.mask u
  · have hinit := h.closed u hu
    simp only [onSched, Scheduler.rtThreadChangePriority]
    split_ifs with hready
    · rw [Scheduler.rtScheduleInsertThread_stat]
      refine init_of_update (by simpa [Scheduler.setPriority] using hinit) ?_
      simp [Scheduler.setPriority, hready]
    · exact hinit

theorem Inv.started (h : Inv s) (ht : s.stat t = .init) (hp : p < 32) :
    Inv { s with
      sched :=
        { Scheduler.setPriority t p s.sched with
          stat := Function.update s.sched.stat t .suspend } } := by
  obtain ⟨hopen, hinit⟩ := stat_eq_init.mp ht
  refine ⟨h.consistent.started hinit hp, h.init_lt, fun u ↦ ?_, fun u hu ↦ ?_, h.defunct⟩
  · simp only [MaskOfPriority, Scheduler.setPriority]
    obtain rfl | hut := eq_or_ne u t
    · simp
    · simp only [Function.update_of_ne hut]
      exact h.mask u
  · have hut : u ≠ t := by
      rintro rfl
      rw [hu] at hopen
      cases hopen
    simpa only [Function.update_of_ne hut] using h.closed u hu

theorem Inv.startup (h : Inv s) (ht : s.stat t = .init) : Inv (rtThreadStartup t s) := by
  have hstarted := h.started ht (h.init_lt t)
  have hresumed := keeps_resume hstarted.consistent t
  rw [rtThreadStartup, Scheduler.rtThreadStartup, if_pos (stat_eq_init.mp ht).2]
  exact (hstarted.keeps hresumed).schedule

theorem Inv.remove (h : Inv s) (t : ℕ) :
    Consistent
      { Scheduler.rtScheduleRemoveThread t s.sched with
        threadTimer := Function.update s.sched.threadTimer t false
        stat := Function.update s.sched.stat t .init } := by
  cases hstat : s.sched.stat t with
  | init =>
    rw [h.consistent.remove_of_init hstat (h.mask t)]
    exact h.consistent.closed hstat
  | ready =>
    have hdetached := h.consistent.remove hstat
    have hrest := hdetached.stopped.rest (x := .init) (by decide)
    simpa using hrest
  | running =>
    have hdetached := h.consistent.detached hstat
    rw [hdetached.remove_eq]
    exact hdetached.stopped.rest (by decide)
  | suspend =>
    rw [h.consistent.remove_of_suspend hstat]
    exact (h.consistent.wake hstat).rest (by decide)

theorem Inv.delete (h : Inv s) (t : ℕ) : Inv (rtThreadDelete t s) := by
  rw [rtThreadDelete]
  split_ifs with hinit
  · refine ⟨h.consistent.closed (stat_eq_init.mp hinit).2, h.init_lt, h.mask, fun u hu ↦ ?_,
      fun u hu ↦ ?_⟩
    · obtain rfl | hut := eq_or_ne u t
      · exact Function.update_self _ _ _
      · simp only [Function.update_of_ne hut] at hu ⊢
        exact h.closed u hu
    · obtain rfl | hu := List.mem_cons.mp hu
      · exact Function.update_self _ _ _
      · exact closed_of_update (h.defunct u hu)
  · refine ⟨?_, ?_, ?_, fun u hu ↦ ?_, fun u hu ↦ ?_⟩
    · simpa [rtScheduleRemoveThread] using h.remove t
    · simpa [rtScheduleRemoveThread] using h.init_lt
    · simpa [rtScheduleRemoveThread, MaskOfPriority] using h.mask
    · obtain rfl | hut := eq_or_ne u t
      · exact Function.update_self _ _ _
      · simp only [Function.update_of_ne hut, rtScheduleRemoveThread,
          Scheduler.rtScheduleRemoveThread_stat] at hu ⊢
        exact h.closed u hu
    · obtain rfl | hu := List.mem_cons.mp hu
      · exact Function.update_self _ _ _
      · exact closed_of_update (h.defunct u (List.mem_filter.mp hu).1)

theorem Inv.schedulerStart (h : Inv s) (hgroup : s.sched.readyPriorityGroup ≠ 0) :
    Inv (rtSystemSchedulerStart s) := by
  have hready := (h.consistent.highest hgroup).1
  have hcurrent := h.consistent.withCurrent (Scheduler.getHighestPriorityThread s.sched)
  refine h.keeps ⟨hcurrent.dispatch hready, ?_, ?_, ?_, fun u hu ↦ ?_⟩
  · exact Scheduler.rtScheduleRemoveThread_initPriority
  · exact Scheduler.rtScheduleRemoveThread_currentPriority
  · exact Scheduler.rtScheduleRemoveThread_numberMask
  · simp only [Scheduler.rtScheduleRemoveThread_stat]
    refine init_of_update hu ?_
    rw [hready]
    decide

theorem Inv.lockNest (h : Inv s) (n : ℕ) : Inv (onSched (fun x ↦ { x with lockNest := n }) s) := by
  refine h.keeps ⟨?_, rfl, rfl, rfl, fun _ hu ↦ hu⟩
  have hx := h.consistent
  exact ⟨hx.linked, hx.ready, hx.waiting, hx.priority, hx.mask, hx.group, hx.timer⟩

theorem inv_step (s : System) (e : Event) (h : Inv s) (he : InRange e) : Inv (step s e) := by
  rw [step]
  split_ifs with hasserts
  case neg => exact h
  cases e with
  | startup t => exact h.startup (of_decide_eq_true hasserts).2
  | resume t => exact h.keeps (keeps_resume h.consistent t)
  | suspend t => exact h.keeps (keeps_suspend h.consistent t)
  | timeout t =>
    have hsuspend := (stat_eq_suspend.mp (of_decide_eq_true hasserts).2.1).2
    exact h.keeps (keeps_timeout h.consistent hsuspend)
  | schedule => exact h.schedule
  | changePriority t p => exact h.changePriority he t
  | delete t => exact h.delete t
  | schedulerStart => exact h.schedulerStart (of_decide_eq_true hasserts).2
  | wait i flag time =>
    obtain ⟨hwaits, hstat⟩ := of_decide_eq_true hasserts
    exact h.keeps (keeps_wait h.consistent (stat_eq_running.mp hstat).2 hwaits flag time)
  | enterCritical => exact h.lockNest _
  | exitCritical =>
    simp only [perform, rtExitCritical]
    split_ifs
    · exact (h.lockNest _).schedule
    · exact h.lockNest _
  | idleExcute =>
    exact ⟨h.consistent, h.init_lt, h.mask, h.closed,
      fun t ht ↦ h.defunct t (List.mem_of_mem_tail ht)⟩

theorem inv_init (hpriority : ∀ t, priority t < rtThreadPriorityMax) : Inv (init priority) where
  consistent :=
    { linked := ⟨fun _ ↦ List.nodup_nil, fun _ _ _ ht ↦ absurd ht List.not_mem_nil⟩
      ready := fun t p ↦ by simp [init]
      waiting := fun _ _ _ ht ↦ absurd ht List.not_mem_nil
      priority := hpriority
      mask := fun _ ht ↦ absurd rfl ht
      group := fun p _ ↦ by simp [init]
      timer := fun _ ht ↦ absurd ht Bool.false_ne_true }
  init_lt := hpriority
  mask _ := .inr rfl
  closed _ ht := absurd ht Bool.false_ne_true
  defunct _ ht := absurd ht List.not_mem_nil

theorem Inv.masked (h : Inv s) (t : ℕ) : Masked s t := by
  obtain hmask | hzero := h.mask t
  · exact .inl hmask
  · by_cases hinit : s.sched.stat t = .init
    · refine .inr ⟨hzero, ?_⟩
      unfold System.stat
      cases s.closed t <;> simp [hinit]
    · exact .inl (h.consistent.mask t hinit)

theorem represented (hpriority : ∀ t, priority t < rtThreadPriorityMax) {es : List Event}
    (hes : ∀ e ∈ es, InRange e) :
    Represents (after priority es) ∧ ∀ t, Masked (after priority es) t := by
  have hrun : Inv (after priority es) :=
    run_invariant inv_step (inv_init hpriority) ((along_const _ es).mpr hes)
  exact ⟨hrun.represents, hrun.masked⟩

def twoThreads : List Event :=
  [.startup 1, .startup 2, .schedulerStart, .changePriority 2 5, .schedule, .wait (.sem 0) .prio 5,
    .schedule, .suspend 1, .timeout 2, .delete 2, .resume 1, .schedule, .delete 1, .idleExcute]

theorem represented_twoThreads : Represents (after (fun t ↦ if t = 1 then 10 else 20) twoThreads) ∧
    ∀ t, Masked (after (fun t ↦ if t = 1 then 10 else 20) twoThreads) t :=
  represented (fun t ↦ by dsimp only [rtThreadPriorityMax]; split_ifs <;> omega)
    (by simp [twoThreads, InRange, rtThreadPriorityMax])

/-- The mask of a thread that has only been initialised is 0, and a thread may be given
priority 32. -/
theorem not_represented :
    ¬(Represents (after (fun _ ↦ 5) []) ∧ ∀ t, MaskOfPriority (after (fun _ ↦ 5) []) t) ∧
      ¬Represents (after (fun _ ↦ 5) [.startup 1, .changePriority 1 32]) := by
  refine ⟨fun h ↦ ?_, fun h ↦ ?_⟩
  · exact absurd (h.2 1) (by decide)
  · exact absurd (h.priority 1 (by decide)) (by decide)

end GiantGecko.Rtos.ThreadStates
