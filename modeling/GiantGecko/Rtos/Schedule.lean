import GiantGecko.Rtos.ReadyQueue

namespace GiantGecko.Rtos.Scheduler

open Foundation.OrderedQueue Foundation.Intrusive

variable {s : Sched} {t u p : ℕ} {h : Head} {l : List ℕ}

@[simp] theorem rtScheduleInsertThread_currentPriority :
    (rtScheduleInsertThread t s).currentPriority = s.currentPriority := by
  rw [rtScheduleInsertThread]
  split_ifs <;> rfl

@[simp] theorem rtScheduleInsertThread_initPriority :
    (rtScheduleInsertThread t s).initPriority = s.initPriority := by
  rw [rtScheduleInsertThread]
  split_ifs <;> rfl

@[simp] theorem rtScheduleInsertThread_numberMask :
    (rtScheduleInsertThread t s).numberMask = s.numberMask := by
  rw [rtScheduleInsertThread]
  split_ifs <;> rfl

@[simp] theorem rtScheduleInsertThread_error : (rtScheduleInsertThread t s).error = s.error := by
  rw [rtScheduleInsertThread]
  split_ifs <;> rfl

@[simp] theorem rtScheduleInsertThread_currentThread :
    (rtScheduleInsertThread t s).currentThread = s.currentThread := by
  rw [rtScheduleInsertThread]
  split_ifs <;> rfl

@[simp] theorem rtScheduleInsertThread_lockNest :
    (rtScheduleInsertThread t s).lockNest = s.lockNest := by
  rw [rtScheduleInsertThread]
  split_ifs <;> rfl

theorem rtScheduleInsertThread_stat :
    (rtScheduleInsertThread t s).stat =
      Function.update s.stat t (if t = s.currentThread then .running else .ready) := by
  rw [rtScheduleInsertThread]
  split_ifs <;> rfl

theorem rtScheduleInsertThread_queue (hh : h.waits) :
    (rtScheduleInsertThread t s).queue h = s.queue h := by
  rw [rtScheduleInsertThread]
  split_ifs
  · rfl
  · refine Function.update_of_ne ?_ _ _
    rintro rfl
    cases hh

@[simp] theorem rtScheduleRemoveThread_currentPriority :
    (rtScheduleRemoveThread t s).currentPriority = s.currentPriority := by
  rw [rtScheduleRemoveThread]
  split_ifs <;> rfl

@[simp] theorem rtScheduleRemoveThread_initPriority :
    (rtScheduleRemoveThread t s).initPriority = s.initPriority := by
  rw [rtScheduleRemoveThread]
  split_ifs <;> rfl

@[simp] theorem rtScheduleRemoveThread_numberMask :
    (rtScheduleRemoveThread t s).numberMask = s.numberMask := by
  rw [rtScheduleRemoveThread]
  split_ifs <;> rfl

@[simp] theorem rtScheduleRemoveThread_error : (rtScheduleRemoveThread t s).error = s.error := by
  rw [rtScheduleRemoveThread]
  split_ifs <;> rfl

@[simp] theorem rtScheduleRemoveThread_stat : (rtScheduleRemoveThread t s).stat = s.stat := by
  rw [rtScheduleRemoveThread]
  split_ifs <;> rfl

@[simp] theorem rtScheduleRemoveThread_currentThread :
    (rtScheduleRemoveThread t s).currentThread = s.currentThread := by
  rw [rtScheduleRemoveThread]
  split_ifs <;> rfl

@[simp] theorem rtScheduleRemoveThread_lockNest :
    (rtScheduleRemoveThread t s).lockNest = s.lockNest := by
  rw [rtScheduleRemoveThread]
  split_ifs <;> rfl

@[simp] theorem rtScheduleRemoveThread_threadTimer :
    (rtScheduleRemoveThread t s).threadTimer = s.threadTimer := by
  rw [rtScheduleRemoveThread]
  split_ifs <;> rfl

@[simp] theorem rtScheduleRemoveThread_queue :
    (rtScheduleRemoveThread t s).queue = unlink t s.queue := by
  rw [rtScheduleRemoveThread]
  split_ifs <;> rfl

/-- Between two calls of the kernel: one thread, the current one, is RUNNING, unless it
is about to leave the processor, and the idle thread can always run. -/
structure Valid (s : Sched) : Prop extends Consistent s where
  unlocked : s.lockNest = 0
  running : ∀ t, s.stat t = .running → t = s.currentThread
  current : s.stat s.currentThread = .running ∨ s.stat s.currentThread = .suspend
  idle : s.stat 0 = .ready ∨ s.stat 0 = .running

def MostUrgent (s : Sched) : Prop :=
  ∀ t, s.stat t = .ready → s.currentPriority s.currentThread ≤ s.currentPriority t

/-- The group leads to a READY thread as urgent as any. -/
theorem Consistent.highest (hs : Consistent s) (hgroup : s.readyPriorityGroup ≠ 0) :
    s.stat (getHighestPriorityThread s) = .ready ∧
      s.currentPriority (getHighestPriorityThread s) = highestReadyPriority s ∧
      ∀ u, s.stat u = .ready → highestReadyPriority s ≤ s.currentPriority u := by
  obtain ⟨p, hp, hffs, hbit, hbelow⟩ := rtFfs_spec hgroup
  have hhighest : highestReadyPriority s = p := by rw [highestReadyPriority, hffs, Nat.add_sub_cancel]
  have hqueue : s.queue (.ready p) ≠ [] := (hs.group p hp).mp hbit
  obtain ⟨t, l, hl⟩ := List.exists_cons_of_ne_nil hqueue
  have hfirst : getHighestPriorityThread s = t := by
    rw [getHighestPriorityThread, hhighest, hl, List.headD_cons]
  rw [hfirst, hhighest]
  obtain ⟨hready, hpriority⟩ := (hs.ready t p).mp (hl ▸ List.mem_cons_self)
  refine ⟨hready, hpriority, ?_⟩
  intro u hu
  by_contra hlt
  have hclear := hbelow (s.currentPriority u) (by omega)
  have hmem : u ∈ s.queue (.ready (s.currentPriority u)) := (hs.ready u _).mpr ⟨hu, rfl⟩
  have hset := (hs.group _ (hs.priority u)).mpr (List.ne_nil_of_mem hmem)
  simp [hclear] at hset

theorem Consistent.not_ready (hs : Consistent s) (hgroup : s.readyPriorityGroup = 0) :
    s.stat u ≠ .ready := by
  intro hu
  have hmem : u ∈ s.queue (.ready (s.currentPriority u)) := (hs.ready u _).mpr ⟨hu, rfl⟩
  have hset := (hs.group _ (hs.priority u)).mpr (List.ne_nil_of_mem hmem)
  simp [hgroup] at hset

theorem Valid.rtSchedule_eq (hs : Valid s) :
    rtSchedule s =
      if s.readyPriorityGroup = 0 ∨ s.stat s.currentThread = .running ∧
          s.currentPriority s.currentThread < highestReadyPriority s then s
      else switchThread s := by
  rw [rtSchedule]
  by_cases hgroup : s.readyPriorityGroup = 0
  · rw [if_neg (by simp [hgroup]), if_pos (.inl hgroup)]
  · have hne : getHighestPriorityThread s ≠ s.currentThread := by
      intro heq
      have hready := (hs.highest hgroup).1
      rw [heq] at hready
      obtain hcurrent | hcurrent := hs.current <;> simp [hcurrent] at hready
    rw [if_pos ⟨hs.unlocked, hgroup⟩]
    simp only [hgroup, hne, or_false, false_or]
    split_ifs with hstays
    · have hdetached := hs.toConsistent.detached hstays.1
      rw [hdetached.remove_eq, ← hstays.1, Function.update_eq_self]
    · rfl

theorem Consistent.withCurrent (hs : Consistent s) (c : ℕ) :
    Consistent { s with currentThread := c } :=
  ⟨hs.linked, hs.ready, hs.waiting, hs.priority, hs.mask, hs.group, hs.timer⟩

def parted (s : Sched) : Sched :=
  let t := { s with currentThread := getHighestPriorityThread s }
  if s.stat s.currentThread = .running then rtScheduleInsertThread s.currentThread t else t

theorem switchThread_eq :
    switchThread s =
      { rtScheduleRemoveThread (getHighestPriorityThread s) (parted s) with
        stat := Function.update (rtScheduleRemoveThread (getHighestPriorityThread s) (parted s)).stat
          (getHighestPriorityThread s) .running } := rfl

theorem Valid.parted (hs : Valid s) : Consistent (parted s) := by
  have hcurrent := hs.toConsistent.withCurrent (getHighestPriorityThread s)
  rw [Scheduler.parted]
  split_ifs with hrunning
  · exact (hcurrent.detached hrunning).insert
  · exact hcurrent

theorem Valid.highest_ne_current (hs : Valid s) (hgroup : s.readyPriorityGroup ≠ 0) :
    getHighestPriorityThread s ≠ s.currentThread := by
  intro heq
  have hready := (hs.highest hgroup).1
  rw [heq] at hready
  obtain hcurrent | hcurrent := hs.current <;> simp [hcurrent] at hready

theorem Valid.parted_stat (hs : Valid s) (hgroup : s.readyPriorityGroup ≠ 0) :
    (Scheduler.parted s).stat u =
      if u = s.currentThread ∧ s.stat u = .running then .ready else s.stat u := by
  rw [Scheduler.parted]
  by_cases hrunning : s.stat s.currentThread = .running
  · simp only [if_pos hrunning, rtScheduleInsertThread_stat, Function.update_apply,
      if_neg (hs.highest_ne_current hgroup).symm]
    obtain rfl | hu := eq_or_ne u s.currentThread
    · simp [hrunning]
    · simp [hu]
  · rw [if_neg hrunning, if_neg]
    rintro ⟨rfl, hu⟩
    exact hrunning hu

theorem parted_queue (hh : h.waits) : (parted s).queue h = s.queue h := by
  rw [parted]
  split_ifs
  · exact rtScheduleInsertThread_queue hh
  · rfl

@[simp] theorem parted_currentPriority : (parted s).currentPriority = s.currentPriority := by
  rw [parted]
  split_ifs <;> simp

@[simp] theorem parted_initPriority : (parted s).initPriority = s.initPriority := by
  rw [parted]
  split_ifs <;> simp

@[simp] theorem parted_numberMask : (parted s).numberMask = s.numberMask := by
  rw [parted]
  split_ifs <;> simp

@[simp] theorem parted_error : (parted s).error = s.error := by
  rw [parted]
  split_ifs <;> simp

@[simp] theorem parted_currentThread : (parted s).currentThread = getHighestPriorityThread s := by
  rw [parted]
  split_ifs <;> simp

@[simp] theorem parted_lockNest : (parted s).lockNest = s.lockNest := by
  rw [parted]
  split_ifs <;> simp

theorem Valid.switchThread_stat (hs : Valid s) (hgroup : s.readyPriorityGroup ≠ 0) :
    (switchThread s).stat u =
      if u = getHighestPriorityThread s then .running
      else if u = s.currentThread ∧ s.stat u = .running then .ready else s.stat u := by
  rw [switchThread_eq]
  simp only [rtScheduleRemoveThread_stat, Function.update_apply, hs.parted_stat hgroup]

theorem switchThread_currentThread :
    (switchThread s).currentThread = getHighestPriorityThread s := by
  simp [switchThread_eq]

theorem Valid.switchThread (hs : Valid s) (hgroup : s.readyPriorityGroup ≠ 0) :
    Valid (switchThread s) := by
  have hne := hs.highest_ne_current hgroup
  have hready : (Scheduler.parted s).stat (getHighestPriorityThread s) = .ready := by
    rw [hs.parted_stat hgroup, if_neg (by simp [hne])]
    exact (hs.highest hgroup).1
  refine ⟨(hs.parted.remove hready).run, ?_, ?_, ?_, ?_⟩
  · simp [switchThread_eq, hs.unlocked]
  · intro u hu
    rw [switchThread_currentThread]
    rw [hs.switchThread_stat hgroup] at hu
    split_ifs at hu with hto hfrom
    · exact hto
    · exact absurd ⟨hs.running u hu, hu⟩ hfrom
  · rw [switchThread_currentThread, hs.switchThread_stat hgroup, if_pos rfl]
    exact .inl rfl
  · rw [hs.switchThread_stat hgroup]
    split_ifs
    · exact .inr rfl
    · exact .inl rfl
    · exact hs.idle

structure Settled (s : Sched) : Prop where
  running : s.stat s.currentThread = .running
  mostUrgent : MostUrgent s

theorem Valid.rtSchedule (hs : Valid s) : Valid (rtSchedule s) := by
  rw [hs.rtSchedule_eq]
  split_ifs with hstays
  · exact hs
  · exact hs.switchThread fun hgroup ↦ hstays (.inl hgroup)

theorem Valid.settled (hs : Valid s) : Settled (Scheduler.rtSchedule s) := by
  rw [hs.rtSchedule_eq]
  by_cases hgroup : s.readyPriorityGroup = 0
  · -- the idle thread is not READY, so it is the one that runs
    rw [if_pos (.inl hgroup)]
    have hidle := hs.idle.resolve_left (hs.not_ready hgroup)
    refine ⟨hs.running 0 hidle ▸ hidle, ?_⟩
    exact fun u hu ↦ absurd hu (hs.not_ready hgroup)
  · obtain ⟨-, hpriority, hleast⟩ := hs.highest hgroup
    by_cases hstays : s.stat s.currentThread = .running ∧
        s.currentPriority s.currentThread < highestReadyPriority s
    · rw [if_pos (.inr hstays)]
      exact ⟨hstays.1, fun u hu ↦ (hstays.2.trans_le (hleast u hu)).le⟩
    · rw [if_neg (not_or.mpr ⟨hgroup, hstays⟩)]
      refine ⟨?_, ?_⟩
      · rw [switchThread_currentThread, hs.switchThread_stat hgroup, if_pos rfl]
      · intro u hu
        rw [hs.switchThread_stat hgroup] at hu
        simp only [switchThread_eq, rtScheduleRemoveThread_currentPriority, parted_currentPriority,
          rtScheduleRemoveThread_currentThread, parted_currentThread, hpriority]
        split_ifs at hu with hto hfrom
        · obtain ⟨rfl, hrunning⟩ := hfrom
          exact not_lt.mp fun hlt ↦ hstays ⟨hrunning, hlt⟩
        · exact hleast u hu

theorem Valid.rtSchedule_init (hs : Valid s) :
    (Scheduler.rtSchedule s).stat u = .init ↔ s.stat u = .init := by
  rw [hs.rtSchedule_eq]
  split_ifs with hstays
  · exact Iff.rfl
  · have hgroup : s.readyPriorityGroup ≠ 0 := fun hgroup ↦ hstays (.inl hgroup)
    rw [hs.switchThread_stat hgroup]
    split_ifs with hto hfrom
    · simp [hto, (hs.highest hgroup).1]
    · simp [hfrom.2]
    · exact Iff.rfl

@[simp] theorem rtSchedule_currentPriority : (rtSchedule s).currentPriority = s.currentPriority := by
  rw [rtSchedule]
  split_ifs <;> simp [switchThread_eq]

@[simp] theorem rtSchedule_initPriority : (rtSchedule s).initPriority = s.initPriority := by
  rw [rtSchedule]
  split_ifs <;> simp [switchThread_eq]

@[simp] theorem rtSchedule_numberMask : (rtSchedule s).numberMask = s.numberMask := by
  rw [rtSchedule]
  split_ifs <;> simp [switchThread_eq]

@[simp] theorem rtSchedule_error : (rtSchedule s).error = s.error := by
  rw [rtSchedule]
  split_ifs <;> simp [switchThread_eq]

theorem Consistent.not_waiting (hs : Consistent s) (hh : h.waits) (hstat : s.stat t ≠ .suspend) :
    t ∉ s.queue h := fun hmem ↦ hstat (hs.waiting h t hh hmem)

theorem Consistent.rtSchedule_queue (hs : Consistent s) (hh : h.waits) :
    (rtSchedule s).queue h = s.queue h := by
  rw [rtSchedule]
  split_ifs with hgo hstays
  · simp only [rtScheduleRemoveThread_queue]
    refine unlink_eq_self (hs.not_waiting hh ?_)
    obtain ⟨hrunning, -⟩ | hfirst := hstays
    · simp [hrunning]
    · rw [← hfirst, (hs.highest hgo.2).1]
      decide
  · rw [switchThread_eq]
    simp only [rtScheduleRemoveThread_queue]
    rw [unlink_eq_self, parted_queue hh]
    rw [parted_queue hh]
    exact hs.not_waiting hh (by simp [(hs.highest hgo.2).1])
  · rfl

theorem Valid.setError (hs : Valid s) (e : Err) : Valid (setError t e s) where
  toConsistent := ⟨hs.linked, hs.ready, hs.waiting, hs.priority, hs.mask, hs.group, hs.timer⟩
  unlocked := hs.unlocked
  running := hs.running
  current := hs.current
  idle := hs.idle

theorem Detached.valid (hd : Detached t s) (hlock : s.lockNest = 0)
    (hrunning : ∀ u ≠ t, s.stat u = .running → u = s.currentThread)
    (hcurrent : s.currentThread ≠ t →
      s.stat s.currentThread = .running ∨ s.stat s.currentThread = .suspend)
    (hidle : 0 ≠ t → s.stat 0 = .ready ∨ s.stat 0 = .running) :
    Valid (rtScheduleInsertThread t s) := by
  refine ⟨hd.insert, ?_, ?_, ?_, ?_⟩
  · simpa using hlock
  · intro u hu
    rw [rtScheduleInsertThread_stat, Function.update_apply] at hu
    rw [rtScheduleInsertThread_currentThread]
    split_ifs at hu with hut hcur
    · exact hut.trans hcur
    · exact hrunning u hut hu
  · simp only [rtScheduleInsertThread_stat, rtScheduleInsertThread_currentThread, Function.update_apply]
    by_cases hcur : s.currentThread = t
    · simp [hcur]
    · simpa [hcur] using hcurrent hcur
  · simp only [rtScheduleInsertThread_stat, Function.update_apply]
    by_cases hzero : 0 = t
    · simp only [hzero, ↓reduceIte]
      split_ifs
      · exact .inr rfl
      · exact .inl rfl
    · simpa [hzero] using hidle hzero

theorem Valid.wake (hs : Valid s) (hsuspend : s.stat t = .suspend) :
    Valid (rtScheduleInsertThread t
      { s with
        queue := unlink t s.queue
        threadTimer := Function.update s.threadTimer t false }) :=
  (hs.toConsistent.wake hsuspend).valid hs.unlocked (fun u _ hu ↦ hs.running u hu)
    (fun _ ↦ hs.current) (fun _ ↦ hs.idle)

theorem Valid.rtThreadResume (hs : Valid s) : Valid (rtThreadResume t s) := by
  rw [Scheduler.rtThreadResume]
  split_ifs with hsuspend
  · exact hs.wake hsuspend
  · exact hs

theorem Valid.timedOut (hs : Valid s) (hsuspend : s.stat t = .suspend) :
    Valid (rtScheduleInsertThread t
      { Scheduler.setError t .etimeout s with
        queue := unlink t s.queue
        threadTimer := Function.update s.threadTimer t false }) :=
  (hs.setError .etimeout).wake hsuspend

theorem Valid.rtThreadTimeout (hs : Valid s) (hsuspend : s.stat t = .suspend) :
    Valid (rtThreadTimeout t s) :=
  (hs.timedOut hsuspend).rtSchedule

theorem Valid.ready_ne_current (hs : Valid s) (hready : s.stat t = .ready) :
    t ≠ s.currentThread := by
  rintro rfl
  obtain hcurrent | hcurrent := hs.current <;> simp [hcurrent] at hready

theorem Valid.changePriority_stat (hs : Valid s) :
    (rtThreadChangePriority t p s).stat = s.stat := by
  rw [rtThreadChangePriority]
  split_ifs with hready
  · rw [rtScheduleInsertThread_stat]
    funext u
    obtain rfl | hut := eq_or_ne u t
    · simp [setPriority, hready, hs.ready_ne_current hready]
    · simp [setPriority, hut]
  · rfl

@[simp] theorem rtThreadChangePriority_currentThread :
    (rtThreadChangePriority t p s).currentThread = s.currentThread := by
  rw [rtThreadChangePriority]
  split_ifs <;> simp [setPriority]

@[simp] theorem rtThreadChangePriority_initPriority :
    (rtThreadChangePriority t p s).initPriority = s.initPriority := by
  rw [rtThreadChangePriority]
  split_ifs <;> simp [setPriority]

@[simp] theorem rtThreadChangePriority_currentPriority :
    (rtThreadChangePriority t p s).currentPriority = Function.update s.currentPriority t p := by
  rw [rtThreadChangePriority]
  split_ifs <;> simp [setPriority]

theorem Valid.changePriority (hs : Valid s) (hp : p < 32) :
    Valid (rtThreadChangePriority t p s) := by
  have hstat := hs.changePriority_stat (t := t) (p := p)
  refine ⟨?_, ?_, ?_, ?_, ?_⟩
  · rw [rtThreadChangePriority]
    split_ifs with hready
    · exact ((hs.toConsistent.remove hready).setPriority hp).insert
    · exact hs.toConsistent.setPriority hready hp
  · rw [rtThreadChangePriority]
    split_ifs <;> simp [Scheduler.setPriority, hs.unlocked]
  · simpa only [hstat, rtThreadChangePriority_currentThread] using hs.running
  · simpa only [hstat, rtThreadChangePriority_currentThread] using hs.current
  · simpa only [hstat] using hs.idle

theorem Consistent.changePriority_queue (hs : Consistent s) (hh : h.waits) :
    (rtThreadChangePriority t p s).queue h = s.queue h := by
  rw [rtThreadChangePriority]
  split_ifs with hready
  · rw [rtScheduleInsertThread_queue hh]
    simp only [Scheduler.setPriority, rtScheduleRemoveThread_queue]
    refine unlink_eq_self fun hmem ↦ ?_
    simp [hs.waiting h t hh hmem] at hready
  · rfl

theorem resume_queue (hh : h.waits) (hsuspend : s.stat t = .suspend) :
    (rtThreadResume t s).queue h = unlink t s.queue h := by
  rw [rtThreadResume, if_pos hsuspend, rtScheduleInsertThread_queue hh]

@[simp] theorem rtThreadResume_currentPriority :
    (rtThreadResume t s).currentPriority = s.currentPriority := by
  rw [rtThreadResume]
  split_ifs <;> simp

@[simp] theorem rtThreadResume_initPriority :
    (rtThreadResume t s).initPriority = s.initPriority := by
  rw [rtThreadResume]
  split_ifs <;> simp

@[simp] theorem rtThreadResume_currentThread :
    (rtThreadResume t s).currentThread = s.currentThread := by
  rw [rtThreadResume]
  split_ifs <;> simp

/-- The current thread is RUNNING no more, and waits in a list or in none; until
`rt_schedule` it stays the current one. -/
theorem Valid.suspended (hs : Valid s) (hrunning : s.stat s.currentThread = .running)
    (hidle : s.currentThread ≠ 0) {q : Head → List ℕ} (hq : Linked q)
    (hready : ∀ p, q (.ready p) = s.queue (.ready p))
    (hwaits : ∀ h u, h.waits → u ∈ q h → u ∈ s.queue h ∨ u = s.currentThread) (b : Bool) :
    Valid
      { s with
        stat := Function.update s.stat s.currentThread .suspend
        threadTimer := Function.update s.threadTimer s.currentThread b
        queue := q } := by
  have hdetached := hs.toConsistent.detached hrunning
  refine ⟨hdetached.suspended hq hready hwaits b, hs.unlocked, ?_, ?_, ?_⟩
  · intro u hu
    simp only [Function.update_apply] at hu
    split_ifs at hu with hcur
    exact hs.running u hu
  · exact .inr (Function.update_self _ _ _)
  · simpa only [Function.update_of_ne hidle.symm] using hs.idle

theorem Consistent.suspend_eq (hs : Consistent s) (hrunning : s.stat t = .running) :
    rtThreadSuspend t s =
      { s with
        stat := Function.update s.stat t .suspend
        threadTimer := Function.update s.threadTimer t false } := by
  rw [rtThreadSuspend, if_pos (.inr hrunning)]
  simp only [(hs.detached hrunning).remove_eq]

theorem Consistent.block_eq (hs : Consistent s) (hrunning : s.stat t = .running) (flag : IpcFlag)
    (time : BitVec 32) :
    startThreadTimer t time (rtIpcListSuspend h t flag s) =
      { s with
        stat := Function.update s.stat t .suspend
        threadTimer := Function.update s.threadTimer t (timed time)
        queue := Function.update s.queue h (waitersWith flag s.currentPriority t (s.queue h)) } := by
  rw [startThreadTimer, rtIpcListSuspend, hs.suspend_eq hrunning]
  split_ifs with htime
  · simp [htime]
  · simp [htime]

theorem Valid.block (hs : Valid s) (hrunning : s.stat s.currentThread = .running)
    (hidle : s.currentThread ≠ 0) (hh : h.waits) (flag : IpcFlag) (time : BitVec 32) :
    Valid (startThreadTimer s.currentThread time (rtIpcListSuspend h s.currentThread flag s)) := by
  have hunlinked := (hs.toConsistent.detached hrunning).unlinked
  have hperm : (waitersWith flag s.currentPriority s.currentThread (s.queue h)).Perm
      (s.currentThread :: s.queue h) := waitersWith_perm
  rw [hs.block_eq hrunning _ _]
  refine hs.suspended hrunning hidle (hs.linked.update hunlinked hperm) ?_ ?_ _
  · intro p
    refine Function.update_of_ne ?_ _ _
    rintro rfl
    cases hh
  · intro i u _ hmem
    exact ((mem_update_perm hperm).mp hmem).imp_right And.left

theorem Valid.sleep (hs : Valid s) (hrunning : s.stat s.currentThread = .running)
    (hidle : s.currentThread ≠ 0) :
    Valid
      { rtThreadSuspend s.currentThread s with
        threadTimer := Function.update (rtThreadSuspend s.currentThread s).threadTimer
          s.currentThread true } := by
  rw [hs.suspend_eq hrunning]
  simp only [Function.update_idem]
  exact hs.suspended hrunning hidle hs.linked (fun _ ↦ rfl) (fun _ _ _ hmem ↦ .inl hmem) true

theorem Consistent.started (hs : Consistent s) (hinit : s.stat t = .init) (hp : p < 32) :
    Consistent { Scheduler.setPriority t p s with stat := Function.update s.stat t .suspend } := by
  have hset := hs.setPriority (t := t) (p := p) (by simp [hinit]) hp
  have hunlinked := hs.unlinked (t := t) (by simp [hinit]) (by simp [hinit])
  have hstat (u : ℕ) (hu : u ≠ t) : Function.update s.stat t .suspend u = s.stat u :=
    Function.update_of_ne hu _ _
  refine ⟨hs.linked, ?_, ?_, hset.priority, ?_, hs.group, ?_⟩
  · intro u q
    obtain rfl | hut := eq_or_ne u t
    · simp [Scheduler.setPriority, hunlinked]
    · simp only [hstat u hut]
      exact hset.ready u q
  · intro h u hh hmem
    simpa only [hstat u (ne_of_mem_of_not_mem hmem (hunlinked h))] using hs.waiting h u hh hmem
  · intro u hu
    obtain rfl | hut := eq_or_ne u t
    · simp [Scheduler.setPriority]
    · simp only [hstat u hut] at hu
      exact hset.mask u hu
  · intro u hu
    obtain rfl | hut := eq_or_ne u t
    · simp
    · simpa only [hstat u hut] using hs.timer u hu

theorem Valid.started (hs : Valid s) (hinit : s.stat t = .init) (hp : p < 32) :
    Valid { setPriority t p s with stat := Function.update s.stat t .suspend } := by
  have hstat (u : ℕ) (hu : u ≠ t) : Function.update s.stat t .suspend u = s.stat u :=
    Function.update_of_ne hu _ _
  refine ⟨hs.toConsistent.started hinit hp, hs.unlocked, ?_, ?_, ?_⟩
  · intro u hu
    obtain rfl | hut := eq_or_ne u t
    · simp at hu
    · simp only [hstat u hut] at hu
      exact hs.running u hu
  · have hcurrent : s.currentThread ≠ t := by
      rintro rfl
      obtain hcurrent | hcurrent := hs.current <;> simp [hcurrent] at hinit
    simpa only [Scheduler.setPriority, hstat _ hcurrent] using hs.current
  · have hidle : 0 ≠ t := by
      rintro rfl
      obtain hidle | hidle := hs.idle <;> simp [hidle] at hinit
    simpa only [Scheduler.setPriority, hstat _ hidle] using hs.idle

theorem Valid.startup (hs : Valid s) (hp : s.initPriority t < 32) {s' : Sched}
    (hstart : rtThreadStartup t s = some s') : Valid s' := by
  rw [rtThreadStartup] at hstart
  split_ifs at hstart with hinit
  obtain rfl := Option.some.inj hstart
  exact (hs.started hinit hp).rtThreadResume

section Anytime

/-! What needs no current thread that is RUNNING. -/

theorem Consistent.remove_of_init (hs : Consistent s) (hinit : s.stat t = .init)
    (hmask : s.numberMask t = 1#32 <<< s.currentPriority t ∨ s.numberMask t = 0) :
    rtScheduleRemoveThread t s = s := by
  have hunlinked := hs.unlinked (t := t) (by simp [hinit]) (by simp [hinit])
  rw [rtScheduleRemoveThread, unlink_of_unlinked hunlinked]
  split_ifs with hempty
  · obtain hmask | hmask := hmask
    · rw [hs.clear_eq hmask hempty]
    · have hkeep : s.readyPriorityGroup &&& ~~~s.numberMask t = s.readyPriorityGroup := by
        rw [hmask, show ~~~(0 : BitVec 32) = BitVec.allOnes 32 from rfl, BitVec.and_allOnes]
      rw [hkeep]
  · rfl

theorem Consistent.closed (hs : Consistent s) (hinit : s.stat t = .init) :
    Consistent
      { s with
        threadTimer := Function.update s.threadTimer t false
        stat := Function.update s.stat t .init } := by
  have htimer : s.threadTimer t = false := by
    by_contra htimer
    have hsuspend := hs.timer t (by simpa using htimer)
    rw [hinit] at hsuspend
    cases hsuspend
  have hsame : Function.update s.threadTimer t false = s.threadTimer := by
    rw [← htimer, Function.update_eq_self]
  rw [hsame, ← hinit, Function.update_eq_self]
  exact hs

theorem Consistent.remove_of_suspend (hs : Consistent s) (hsuspend : s.stat t = .suspend) :
    rtScheduleRemoveThread t s = { s with queue := unlink t s.queue } := by
  have hready : t ∉ s.queue (.ready (s.currentPriority t)) := by simp [hs.ready, hsuspend]
  rw [rtScheduleRemoveThread, unlink_eq_self hready]
  split_ifs with hempty
  · rw [hs.clear_eq (hs.mask t (by simp [hsuspend])) hempty]
  · rfl

theorem Consistent.resume (hs : Consistent s) (t : ℕ) : Consistent (rtThreadResume t s) := by
  rw [rtThreadResume]
  split_ifs with hsuspend
  · exact (hs.wake hsuspend).insert
  · exact hs

theorem Consistent.suspend (hs : Consistent s) (t : ℕ) : Consistent (rtThreadSuspend t s) := by
  rw [rtThreadSuspend]
  split_ifs with hstat
  · have hdetached : Detached t (rtScheduleRemoveThread t s) := by
      obtain hready | hrunning := hstat
      · exact hs.remove hready
      · have hdetached := hs.detached hrunning
        rwa [hdetached.remove_eq]
    exact hdetached.suspended hdetached.linked (fun _ ↦ rfl) (fun _ _ _ hmem ↦ .inl hmem) false
  · exact hs

theorem Consistent.changePriority (hs : Consistent s) (hp : p < 32) (t : ℕ) :
    Consistent (rtThreadChangePriority t p s) := by
  rw [rtThreadChangePriority]
  split_ifs with hready
  · exact ((hs.remove hready).setPriority hp).insert
  · exact hs.setPriority hready hp

theorem Consistent.dispatch (hs : Consistent s) (hready : s.stat t = .ready) :
    Consistent
      { rtScheduleRemoveThread t s with
        stat := Function.update (rtScheduleRemoveThread t s).stat t .running } :=
  (hs.remove hready).run

theorem Consistent.schedule (hs : Consistent s) : Consistent (rtSchedule s) := by
  rw [rtSchedule]
  split_ifs with hgo hstays
  · obtain ⟨hrunning, -⟩ | hfirst := hstays
    · have hdetached := hs.detached hrunning
      simpa only [hdetached.remove_eq] using hdetached.run
    · have hready := (hs.highest hgo.2).1
      rw [hfirst] at hready
      simpa only [rtScheduleRemoveThread_currentThread] using hs.dispatch hready
  · obtain ⟨hready, -, -⟩ := hs.highest hgo.2
    have hcurrent := hs.withCurrent (getHighestPriorityThread s)
    have hparted : Consistent (Scheduler.parted s) ∧
        (Scheduler.parted s).stat (getHighestPriorityThread s) = .ready := by
      rw [Scheduler.parted]
      split_ifs with hrunning
      · refine ⟨(hcurrent.detached hrunning).insert, ?_⟩
        rw [rtScheduleInsertThread_stat, Function.update_of_ne]
        · exact hready
        · intro heq
          rw [heq, hrunning] at hready
          cases hready
      · exact ⟨hcurrent, hready⟩
    rw [switchThread_eq]
    exact hparted.1.dispatch hparted.2
  · exact hs

theorem Consistent.timedOut (hs : Consistent s) (hsuspend : s.stat t = .suspend) :
    Consistent (rtScheduleInsertThread t
      { Scheduler.setError t .etimeout s with
        queue := unlink t s.queue
        threadTimer := Function.update s.threadTimer t false }) := by
  have herror : Consistent (Scheduler.setError t .etimeout s) :=
    ⟨hs.linked, hs.ready, hs.waiting, hs.priority, hs.mask, hs.group, hs.timer⟩
  exact (herror.wake hsuspend).insert

end Anytime

end GiantGecko.Rtos.Scheduler
