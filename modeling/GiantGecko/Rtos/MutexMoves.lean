import GiantGecko.Rtos.Outcome

namespace GiantGecko.Rtos.MutexMoves

open Foundation.Intrusive Scheduler Ipc Interleaving Outcome

/-- The mutexes, those who wait for them and all priorities. -/
@[ext] structure View where
  initPriority : ℕ → ℕ
  priority : ℕ → ℕ
  mutex : ℕ → Mutex
  waiters : ℕ → List ℕ

def view (k : Kernel) : View where
  initPriority := k.sched.initPriority
  priority := k.sched.currentPriority
  mutex := k.mutex
  waiters m := k.sched.queue (.mutex m)

/-- What can happen to a mutex: the current thread becomes the owner of a free one,
takes its own again, waits, gives back one take of several or the last one; a waiter
gives up. -/
inductive Move
  | take (m : ℕ)
  | again (m : ℕ)
  | wait (m : ℕ)
  | giveBack (m : ℕ)
  | release (m : ℕ)
  | leave (t : ℕ)

/-- The priorities once a thread waits for what another, the owner, holds. -/
def raised (self : ℕ) (owner : Option ℕ) (priority : ℕ → ℕ) : ℕ → ℕ :=
  match owner with
  | some o =>
    if priority self < priority o then Function.update priority o (priority self) else priority
  | none => priority

def Mutex.freed (x : Mutex) : Mutex :=
  { x with value := (x.value + 1) % 2 ^ 16, owner := none, originalPriority := 0xFF }

def act (self : ℕ) (v : View) : Move → View
  | .take m =>
    { v with
      mutex := Function.update v.mutex m
        ({ v.mutex m with value := (v.mutex m).value - 1 }.giveTo self (v.priority self)) }
  | .again m => { v with mutex := Function.update v.mutex m ((v.mutex m).held self) }
  | .wait m =>
    { v with
      priority := raised self (v.mutex m).owner v.priority
      waiters := Function.update v.waiters m
        (waitersWith (v.mutex m).flag (raised self (v.mutex m).owner v.priority) self
          (v.waiters m)) }
  | .giveBack m => { v with mutex := Function.update v.mutex m ((v.mutex m).unheld self) }
  | .release m =>
    let x := (v.mutex m).unheld self
    let v := { v with priority := Function.update v.priority self x.originalPriority }
    match v.waiters m with
    | w :: _ =>
      { v with
        mutex := Function.update v.mutex m (x.giveTo w (v.priority w))
        waiters := unlink w v.waiters }
    | [] => { v with mutex := Function.update v.mutex m (Mutex.freed x) }
  | .leave t => { v with waiters := unlink t v.waiters }

def takeMove (m : ℕ) (time : BitVec 32) (k : Kernel) : Option Move :=
  if 0 < (k.mutex m).value then some (.take m)
  else if time = 0 then none
  else some (.wait m)

def callMove (c : Call) (k : Kernel) : Option Move :=
  match c with
  | .mutexTake m time =>
    if (k.mutex m).owner = some (rtThreadSelf k) then some (.again m) else takeMove m time k
  | .mutexRelease m =>
    if (k.mutex m).owner ≠ some (rtThreadSelf k) then none
    else if ((k.mutex m).unheld (rtThreadSelf k)).hold = 0 then some (.release m)
    else some (.giveBack m)
  | _ => none

def contMove (c : Cont) (k : Kernel) : Option Move :=
  match c with
  | .mutexTake m time =>
    if k.sched.error (rtThreadSelf k) = .eintr then takeMove m time k else none
  | _ => none

def move (k : Kernel) : Input → Option Move
  | .call c =>
    match k.pc (rtThreadSelf k) with
    | .user => if rtThreadSelf k = idleThread then none else callMove c k
    | _ => none
  | .go =>
    match k.pc (rtThreadSelf k) with
    | .resumed c => contMove c k
    | _ => none
  | .timeout t => if k.sched.threadTimer t then some (.leave t) else none
  | .tick => none

def actOption (self : ℕ) (v : View) (o : Option Move) : View := o.elim v (act self v)

structure Inv (k : Kernel) : Prop where
  valid : Valid k.sched
  going : (∃ c, k.pc (rtThreadSelf k) = .schedule c) ∨ k.sched.stat (rtThreadSelf k) = .running
  idle : k.pc idleThread = .user
  started : ∀ m o, (k.mutex m).owner = some o → k.sched.stat o ≠ .init
  saved : ∀ m o, (k.mutex m).owner = some o → (k.mutex m).originalPriority < 32
  initial : ∀ t, k.sched.initPriority t < 32
  fresh : ∀ t, k.sched.stat t = .init → k.sched.currentPriority t = k.sched.initPriority t

variable {k k' : Kernel} {m t : ℕ}

structure Kept (k k' : Kernel) : Prop where
  valid : Valid k'.sched
  self : rtThreadSelf k' = rtThreadSelf k
  initPriority : k'.sched.initPriority = k.sched.initPriority
  started : ∀ t, k.sched.stat t ≠ .init → k'.sched.stat t ≠ .init
  pc : ∀ t ≠ rtThreadSelf k, k'.pc t = k.pc t
  schedules : (∃ c, k'.pc (rtThreadSelf k) = .schedule c) ∨ k'.sched.stat = k.sched.stat

theorem Kept.inv (h : Kept k k') (hk : Inv k) (hrun : Running k)
    (hfresh : ∀ t, k'.sched.stat t = .init → k'.sched.currentPriority t = k.sched.currentPriority t)
    (howner : ∀ m o, (k'.mutex m).owner = some o →
      k.sched.stat o ≠ .init ∧ (k'.mutex m).originalPriority < 32) : Inv k' where
  valid := h.valid
  going := by
    rw [h.self]
    refine h.schedules.imp_right fun hstat ↦ ?_
    rw [hstat]
    exact hrun.running
  idle := by rw [h.pc _ hrun.not_idle.symm, hk.idle]
  started m o ho := h.started o (howner m o ho).1
  saved m o ho := (howner m o ho).2
  initial := h.initPriority ▸ hk.initial
  fresh t ht := by
    rw [hfresh t ht, h.initPriority]
    apply hk.fresh
    by_contra hne
    exact h.started t hne ht


theorem kept_of_plain (h : Plain k k') : Kept k k' :=
  ⟨h.frame.valid, h.frame.self, h.frame.initPriority, h.frame.started, h.pc, h.schedules⟩

theorem view_of_plain (h : Plain k k') : view k' = view k := by
  ext1
  · exact h.frame.initPriority
  · exact h.frame.currentPriority
  · exact h.mutex
  · exact funext h.frame.waiters

theorem inv_of_plain (hk : Inv k) (hrun : Running k) (h : Plain k k') : Inv k' := by
  refine (kept_of_plain h).inv hk hrun ?_ ?_
  · exact fun t _ ↦ congrFun h.frame.currentPriority t
  · intro m o ho
    rw [h.mutex] at ho ⊢
    exact ⟨hk.started m o ho, hk.saved m o ho⟩

def FreesUnawaited (k : Kernel) (o : Option Move) : Prop :=
  ∃ m, o = some (.release m) ∧ k.sched.queue (.mutex m) = []

/-- What a call does to the mutexes, with the invariant kept. A call that gives back a
mutex that nobody waits for returns without `rt_schedule`, others that change a priority
do not. -/
structure Makes (k k' : Kernel) (o : Option Move) : Prop where
  inv : Inv k'
  view : view k' = actOption (rtThreadSelf k) (view k) o
  kept : Kept k k'
  steady : (∃ c, k'.pc (rtThreadSelf k) = .schedule c) ∨
    k'.sched.currentPriority = k.sched.currentPriority ∨ FreesUnawaited k o
  ends : FreesUnawaited k o → k'.pc (rtThreadSelf k) = .user

theorem makes_of_plain (hk : Inv k) (hrun : Running k) (h : Plain k k') : Makes k k' none where
  inv := inv_of_plain hk hrun h
  view := view_of_plain h
  kept := kept_of_plain h
  steady := .inr (.inl h.frame.currentPriority)
  ends := by
    rintro ⟨m, hm, -⟩
    cases hm

theorem makes_setMutex (hk : Inv k) (hrun : Running k) {e : Err} {x : Mutex} {o : Move}
    (howner : ∀ o, x.owner = some o → k.sched.stat o ≠ .init ∧ x.originalPriority < 32)
    (hact : act (rtThreadSelf k) (view k) o =
      { view k with mutex := Function.update k.mutex m x }) :
    Makes k (finish e (setMutex m x k)) (some o) := by
  have hkept : Kept k (finish e (setMutex m x k)) :=
    ⟨hk.valid, rfl, rfl, fun _ ht ↦ ht, fun _ hu ↦ Function.update_of_ne hu _ _, .inr rfl⟩
  refine ⟨hkept.inv hk hrun (fun _ _ ↦ rfl) ?_, hact.symm, hkept, .inr (.inl rfl),
    fun _ ↦ Function.update_self _ _ _⟩
  intro n u hu
  simp only [finish, setMutex] at hu ⊢
  obtain rfl | hne := eq_or_ne n m
  · simp only [Function.update_self] at hu ⊢
    exact howner u hu
  · simp only [Function.update_of_ne hne] at hu ⊢
    exact ⟨hk.started n u hu, hk.saved n u hu⟩

/-- The lists and states are as they were; priorities and mutexes may have changed. -/
structure Repriced (k k' : Kernel) : Prop where
  valid : Valid k'.sched
  self : rtThreadSelf k' = rtThreadSelf k
  initPriority : k'.sched.initPriority = k.sched.initPriority
  stat : k'.sched.stat = k.sched.stat
  queue : ∀ h : Head, h.waits → k'.sched.queue h = k.sched.queue h
  pc : k'.pc = k.pc

theorem repriced_refl (hk : Valid k.sched) : Repriced k k :=
  ⟨hk, rfl, rfl, rfl, fun _ _ ↦ rfl, rfl⟩

theorem repriced_changePriority (hk : Valid k.sched) {p : ℕ} (hp : p < 32) :
    Repriced k (onSched (rtThreadChangePriority t p) k) :=
  ⟨hk.changePriority hp, rtThreadChangePriority_currentThread,
    rtThreadChangePriority_initPriority, hk.changePriority_stat,
    fun _ hh ↦ hk.changePriority_queue hh, rfl⟩

theorem inherit_repriced (hk : Valid k.sched) : Repriced k (inherit m k) := by
  rw [inherit]
  cases (k.mutex m).owner with
  | none => exact repriced_refl hk
  | some o =>
    dsimp only
    split_ifs
    · exact repriced_changePriority hk (hk.priority _)
    · exact repriced_refl hk

@[simp] theorem inherit_mutex : (inherit m k).mutex = k.mutex := by
  rw [inherit]
  cases (k.mutex m).owner with
  | none => rfl
  | some o =>
    dsimp only
    split_ifs <;> rfl

theorem inherit_priority :
    (inherit m k).sched.currentPriority =
      raised (rtThreadSelf k) (k.mutex m).owner k.sched.currentPriority := by
  rw [inherit]
  cases (k.mutex m).owner with
  | none => rfl
  | some o =>
    simp only [raised]
    split_ifs
    · exact rtThreadChangePriority_currentPriority
    · rfl

theorem restore_repriced (hk : Valid k.sched) (hp : (k.mutex m).originalPriority < 32) :
    Repriced k (restore m k) := by
  rw [restore]
  split_ifs
  · exact repriced_changePriority hk hp
  · exact repriced_refl hk

@[simp] theorem restore_mutex : (restore m k).mutex = k.mutex := by
  rw [restore]
  split_ifs <;> rfl

theorem restore_priority :
    (restore m k).sched.currentPriority =
      Function.update k.sched.currentPriority (rtThreadSelf k) (k.mutex m).originalPriority := by
  rw [restore]
  split_ifs with heq
  · exact rtThreadChangePriority_currentPriority
  · rw [not_not.mp heq, Function.update_eq_self]

theorem Repriced.running (h : Repriced k k') (hrun : Running k) : Running k' where
  valid := h.valid
  running := by rw [h.self, h.stat, hrun.running]
  not_idle := by rw [h.self]; exact hrun.not_idle

theorem raised_fresh (hk : Inv k) (ht : k.sched.stat t = .init) :
    raised (rtThreadSelf k) (k.mutex m).owner k.sched.currentPriority t =
      k.sched.currentPriority t := by
  cases ho : (k.mutex m).owner with
  | none => rfl
  | some o =>
    rw [raised]
    split_ifs
    · refine Function.update_of_ne ?_ _ _
      rintro rfl
      exact hk.started m t ho ht
    · rfl

theorem Repriced.next (h : Repriced k k') {f : Sched → Sched} {c : Cont}
    (hself : (f k'.sched).currentThread = k'.sched.currentThread) :
    (Ipc.thenSchedule c (onSched f k')).pc (rtThreadSelf k) = .schedule c := by
  have hself' : rtThreadSelf (onSched f k') = rtThreadSelf k := hself.trans h.self
  rw [Ipc.thenSchedule, hself']
  exact Function.update_self _ _ _

theorem Repriced.thenSchedule (h : Repriced k k') {f : Sched → Sched} {c : Cont}
    (hvalid : Valid (f k'.sched)) (hself : (f k'.sched).currentThread = k'.sched.currentThread)
    (hinit : (f k'.sched).initPriority = k'.sched.initPriority)
    (hstarted : ∀ t, k'.sched.stat t ≠ .init → (f k'.sched).stat t ≠ .init) :
    Kept k (Ipc.thenSchedule c (onSched f k')) := by
  have hself' : rtThreadSelf (onSched f k') = rtThreadSelf k := hself.trans h.self
  refine ⟨hvalid, hself', hinit.trans h.initPriority, ?_, ?_, .inl ⟨c, h.next hself⟩⟩
  · intro t ht
    exact hstarted t (h.stat ▸ ht)
  · intro t ht
    rw [← h.pc]
    exact Function.update_of_ne (hself' ▸ ht) _ _

theorem waitOn_makes (hk : Inv k) (hrun : Running k) {time : BitVec 32} {c : Cont} :
    Makes k (waitOn (.mutex m) (k.mutex m).flag time c (inherit m k)) (some (.wait m)) := by
  have hpriced := inherit_repriced hk.valid (m := m)
  have hrun' := hpriced.running hrun
  have hvalid := hrun'.valid.block hrun'.running hrun'.not_idle (h := .mutex m) rfl
    (k.mutex m).flag time
  have hblock := hrun'.valid.block_eq hrun'.running (h := .mutex m) (k.mutex m).flag time
  have hself := congrArg Sched.currentThread hblock
  have hinit := congrArg Sched.initPriority hblock
  have hstat := congrArg Sched.stat hblock
  have hpriority := (congrArg Sched.currentPriority hblock).trans inherit_priority
  have hkept : Kept k (waitOn (.mutex m) (k.mutex m).flag time c (inherit m k)) := by
    refine hpriced.thenSchedule hvalid hself hinit ?_
    intro t ht
    rw [hstat]
    simp only [Function.update_apply]
    split_ifs
    · simp
    · exact ht
  refine ⟨hkept.inv hk hrun ?_ ?_, ?_, hkept, .inl ⟨c, hpriced.next hself⟩, ?_⟩
  · intro t ht
    have hfresh : k.sched.stat t = .init := by
      by_contra hne
      exact hkept.started t hne ht
    exact (congrFun hpriority t).trans (raised_fresh hk hfresh)
  · intro n o ho
    simp only [waitOn, thenSchedule, onSched, inherit_mutex] at ho ⊢
    exact ⟨hk.started n o ho, hk.saved n o ho⟩
  · ext1
    · exact hkept.initPriority
    · exact hpriority
    · exact inherit_mutex
    · funext n
      have hqueue := congrFun (congrArg Sched.queue hblock) (.mutex n)
      refine hqueue.trans ?_
      simp only [hpriced.self, hpriced.queue (.mutex m) rfl, inherit_priority]
      obtain rfl | hne := eq_or_ne n m
      · rw [Function.update_self]
        exact (Function.update_self (f := fun n ↦ k.sched.queue (.mutex n)) n _).symm
      · rw [Function.update_of_ne (by simpa using hne)]
        refine (hpriced.queue (.mutex n) rfl).trans ?_
        exact (Function.update_of_ne (f := fun n ↦ k.sched.queue (.mutex n)) hne _).symm
  · rintro ⟨n, hn, -⟩
    cases hn

theorem takeAgain_makes (hk : Inv k) (hrun : Running k) (m : ℕ) (time : BitVec 32) :
    Makes k (takeAgain m time k) (takeMove m time k) := by
  rw [takeAgain, takeMove]
  split_ifs
  · refine makes_setMutex hk hrun ?_ rfl
    rintro o ⟨⟩
    exact ⟨by simp [hrun.running], hk.valid.priority _⟩
  · exact makes_of_plain hk hrun ((stored_setSelfError hk.valid .etimeout).finish .etimeout)
  · exact waitOn_makes hk hrun

theorem Makes.of_setSelfError {o : Option Move} {e : Err} (h : Makes (setSelfError e k) k' o) :
    Makes k k' o :=
  ⟨h.inv, h.view, ⟨h.kept.valid, h.kept.self, h.kept.initPriority, h.kept.started, h.kept.pc,
    h.kept.schedules⟩, h.steady, h.ends⟩

theorem rtMutexTake_eq {time : BitVec 32} :
    rtMutexTake m time k =
      if (k.mutex m).owner = some (rtThreadSelf k) then
        finish .eok (setMutex m ((k.mutex m).held (rtThreadSelf k)) (setSelfError .eok k))
      else takeAgain m time (setSelfError .eok k) := rfl

theorem rtMutexTake_makes (hk : Inv k) (hrun : Running k) (m : ℕ) (time : BitVec 32) :
    Makes k (rtMutexTake m time k) (callMove (.mutexTake m time) k) := by
  have hstored := stored_setSelfError hk.valid .eok
  have hk' := inv_of_plain hk hrun hstored.plain
  have hrun' := hrun.stored hstored
  apply Makes.of_setSelfError (e := .eok)
  rw [rtMutexTake_eq, callMove]
  split_ifs
  · refine makes_setMutex hk' hrun' ?_ rfl
    exact fun o ho ↦ ⟨hk'.started m o ho, hk'.saved m o ho⟩
  · exact takeAgain_makes hk' hrun' m time

theorem Repriced.finish (h : Repriced k k') {e : Err} : Kept k (Ipc.finish e k') := by
  refine ⟨h.valid, h.self, h.initPriority, ?_, ?_, .inr h.stat⟩
  · intro t ht
    exact h.stat ▸ ht
  · intro t ht
    rw [← h.pc]
    exact Function.update_of_ne (h.self ▸ ht) _ _

theorem Repriced.setMutex (h : Repriced k k') {x : Mutex} :
    Repriced k (Ipc.setMutex m x k') :=
  ⟨h.valid, h.self, h.initPriority, h.stat, h.queue, h.pc⟩

theorem Repriced.resume (h : Repriced k k') {l : List ℕ} (hl : k.sched.queue (.mutex m) = t :: l)
    {c : Cont} :
    Kept k (Ipc.thenSchedule c (onSched (rtIpcListResume (.mutex m)) k')) ∧
      (Ipc.thenSchedule c (onSched (rtIpcListResume (.mutex m)) k')).pc (rtThreadSelf k) =
        .schedule c ∧
      rtIpcListResume (.mutex m) k'.sched = rtThreadResume t k'.sched := by
  have hresume : rtIpcListResume (.mutex m) k'.sched = rtThreadResume t k'.sched := by
    rw [rtIpcListResume, h.queue (.mutex m) rfl, hl]
  have hself : (rtIpcListResume (.mutex m) k'.sched).currentThread = k'.sched.currentThread := by
    rw [hresume, rtThreadResume_currentThread]
  refine ⟨h.thenSchedule ?_ hself ?_ ?_, h.next hself, hresume⟩
  · exact hresume ▸ h.valid.rtThreadResume
  · rw [hresume, rtThreadResume_initPriority]
  · intro u hu
    rw [hresume, rtThreadResume]
    split_ifs
    · rw [rtScheduleInsertThread_stat, Function.update_apply]
      split_ifs <;> simp_all
    · exact hu

theorem rtMutexRelease_eq :
    rtMutexRelease m k =
      if (k.mutex m).owner ≠ some (rtThreadSelf k) then finish .error (setSelfError .error k)
      else if ((k.mutex m).unheld (rtThreadSelf k)).hold = 0 then
        passOn m (restore m (setMutex m ((k.mutex m).unheld (rtThreadSelf k)) k))
      else finish .eok (setMutex m ((k.mutex m).unheld (rtThreadSelf k)) k) := by
  simp [rtMutexRelease, setMutex]

theorem setMutex_restore_mutex {x y : Mutex} :
    (setMutex m y (restore m (setMutex m x k))).mutex = Function.update k.mutex m y := by
  simp [setMutex]

theorem passOn_makes (hk : Inv k) (hrun : Running k)
    (howner : (k.mutex m).owner = some (rtThreadSelf k)) :
    Makes k (passOn m (restore m (setMutex m ((k.mutex m).unheld (rtThreadSelf k)) k)))
      (some (.release m)) := by
  set x := (k.mutex m).unheld (rtThreadSelf k) with hx
  have hmutex : ((setMutex m x k).mutex m) = x := Function.update_self _ _ _
  have hsaved : ((setMutex m x k).mutex m).originalPriority < 32 := by
    rw [hmutex]
    exact hk.saved m _ howner
  have hrestore := restore_repriced (k := setMutex m x k) hk.valid hsaved
  have hpriced : Repriced k (restore m (setMutex m x k)) :=
    ⟨hrestore.valid, hrestore.self, hrestore.initPriority, hrestore.stat, hrestore.queue,
      hrestore.pc⟩
  have hpriority : (restore m (setMutex m x k)).sched.currentPriority =
      Function.update k.sched.currentPriority (rtThreadSelf k) x.originalPriority := by
    rw [restore_priority, hmutex]
    rfl
  have hfresh (t : ℕ) (ht : k.sched.stat t = .init) :
      Function.update k.sched.currentPriority (rtThreadSelf k) x.originalPriority t =
        k.sched.currentPriority t := by
    refine Function.update_of_ne ?_ _ _
    rintro rfl
    simp [hrun.running] at ht
  have hother (n o : ℕ) (hn : n ≠ m) (y : Mutex)
      (ho : (Function.update (setMutex m x k).mutex m y n).owner = some o) :
      k.sched.stat o ≠ .init ∧
        (Function.update (setMutex m x k).mutex m y n).originalPriority < 32 := by
    simp only [setMutex, Function.update_of_ne hn] at ho ⊢
    exact ⟨hk.started n o ho, hk.saved n o ho⟩
  rw [passOn, hpriced.queue (.mutex m) rfl, restore_mutex, hmutex]
  cases hl : k.sched.queue (.mutex m) with
  | nil =>
    have hkept : Kept k (finish .eok (setMutex m (Mutex.freed x) (restore m (setMutex m x k)))) :=
      hpriced.setMutex.finish
    refine ⟨hkept.inv hk hrun ?_ ?_, ?_, hkept, .inr (.inr ⟨m, rfl, hl⟩), ?_⟩
    · exact fun t ht ↦ (congrFun hpriority t).trans (hfresh t (hpriced.stat ▸ ht))
    · intro n o ho
      simp only [finish, setMutex, restore_mutex] at ho ⊢
      obtain rfl | hn := eq_or_ne n m
      · simp [Mutex.freed] at ho
      · exact hother n o hn _ ho
    · rw [actOption, Option.elim_some, act]
      simp only [view, hl, ← hx]
      ext1
      · exact hpriced.initPriority
      · exact hpriority
      · exact setMutex_restore_mutex
      · exact funext fun n ↦ hpriced.queue (.mutex n) rfl
    · intro _
      rw [← hpriced.self]
      exact Function.update_self _ _ _
  | cons w l =>
    set y := x.giveTo w ((restore m (setMutex m x k)).sched.currentPriority w) with hy
    have hmem : w ∈ k.sched.queue (.mutex m) := by rw [hl]; exact List.mem_cons_self
    have hsuspend := hk.valid.waiting _ w rfl hmem
    obtain ⟨hkept, hnext, hresume⟩ := (hpriced.setMutex (m := m) (x := y)).resume hl (c := .done)
    refine ⟨hkept.inv hk hrun ?_ ?_, ?_, hkept, .inl ⟨.done, hnext⟩, ?_⟩
    · intro t ht
      have hinit : k.sched.stat t = .init := by
        by_contra hne
        exact hkept.started t hne ht
      have hcurrent := congrFun (congrArg Sched.currentPriority hresume) t
      rw [rtThreadResume_currentPriority] at hcurrent
      exact hcurrent.trans ((congrFun hpriority t).trans (hfresh t hinit))
    · intro n o ho
      simp only [thenSchedule, onSched, setMutex, restore_mutex] at ho ⊢
      obtain rfl | hn := eq_or_ne n m
      · simp only [Function.update_self] at ho ⊢
        obtain rfl : w = o := Option.some.inj ho
        exact ⟨by simp [hsuspend], hpriced.valid.priority w⟩
      · exact hother n o hn _ ho
    · rw [actOption, Option.elim_some, act]
      simp only [view, hl, ← hx]
      ext1
      · exact hkept.initPriority
      · have hcurrent := congrArg Sched.currentPriority hresume
        rw [rtThreadResume_currentPriority] at hcurrent
        exact hcurrent.trans hpriority
      · rw [← hpriority]
        exact setMutex_restore_mutex
      · funext n
        have hstat : (setMutex m y (restore m (setMutex m x k))).sched.stat w = .suspend :=
          (congrFun hpriced.stat w).trans hsuspend
        have hqueue := congrFun (congrArg Sched.queue hresume) (.mutex n)
        rw [resume_queue rfl hstat] at hqueue
        refine hqueue.trans ?_
        exact congrArg (List.filter (· ≠ w)) (hpriced.queue (.mutex n) rfl)
    · rintro ⟨n, hn, hnil⟩
      cases hn
      simp [hl] at hnil

theorem rtMutexRelease_makes (hk : Inv k) (hrun : Running k) (m : ℕ) :
    Makes k (rtMutexRelease m k) (callMove (.mutexRelease m) k) := by
  rw [rtMutexRelease_eq, callMove]
  split_ifs with howner hhold
  · exact makes_of_plain hk hrun ((stored_setSelfError hk.valid .error).finish .error)
  · exact passOn_makes hk hrun (not_not.mp howner)
  · refine makes_setMutex hk hrun ?_ rfl
    exact fun o ho ↦ ⟨hk.started m o ho, hk.saved m o ho⟩

theorem threadStartup_plain (hk : Inv k) (t : ℕ) : Plain k (threadStartup t k) := by
  rw [threadStartup]
  cases hstart : rtThreadStartup t k.sched with
  | none => exact plain_refl hk.valid
  | some s =>
    have hvalid := hk.valid.startup (hk.initial t) hstart
    rw [rtThreadStartup] at hstart
    split_ifs at hstart with hinit
    obtain rfl := Option.some.inj hstart
    have hunlinked := hk.valid.toConsistent.unlinked (t := t) (by simp [hinit]) (by simp [hinit])
    refine plain_thenSchedule (f := fun _ ↦ _) ⟨hvalid, ?_, ?_, ?_, ?_, ?_⟩
    · simp [setPriority]
    · rw [rtThreadResume_currentPriority, setPriority, ← hk.fresh t hinit]
      exact Function.update_eq_self _ _
    · simp [setPriority]
    · intro u hu
      have hut : u ≠ t := by
        rintro rfl
        exact hu hinit
      rw [rtThreadResume, if_pos (Function.update_self _ _ _), rtScheduleInsertThread_stat]
      simpa [hut, setPriority] using hu
    · intro m
      rw [resume_queue rfl (Function.update_self _ _ _)]
      exact unlink_eq_self (hunlinked _)

theorem invoke_makes (hk : Inv k) (hrun : Running k) (c : Call) :
    Makes k (invoke c k) (callMove c k) := by
  cases c with
  | mutexTake m time => exact rtMutexTake_makes hk hrun m time
  | mutexRelease m => exact rtMutexRelease_makes hk hrun m
  | semTake i time => exact makes_of_plain hk hrun (rtSemTake_plain hrun i time)
  | semRelease i => exact makes_of_plain hk hrun (rtSemRelease_plain hrun i)
  | eventSend e set => exact makes_of_plain hk hrun (rtEventSend_plain hrun e set)
  | eventRecv e set option timeout =>
    exact makes_of_plain hk hrun (rtEventRecv_plain hrun e set option timeout)
  | mbSendWait i value timeout =>
    exact makes_of_plain hk hrun (rtMbSendWait_plain hrun i value timeout)
  | mbRecv i timeout => exact makes_of_plain hk hrun (rtMbRecv_plain hrun i timeout)
  | mqSend i buffer => exact makes_of_plain hk hrun (rtMqSend_plain hrun false i buffer)
  | mqUrgent i buffer => exact makes_of_plain hk hrun (rtMqSend_plain hrun true i buffer)
  | mqRecv i size timeout => exact makes_of_plain hk hrun (rtMqRecv_plain hrun i size timeout)
  | sleep => exact makes_of_plain hk hrun (rtThreadSleep_plain hrun)
  | startup t => exact makes_of_plain hk hrun (threadStartup_plain hk t)

theorem continueWith_makes (hk : Inv k) (hrun : Running k) (c : Cont) :
    Makes k (continueWith c k) (contMove c k) := by
  have hfinish (e : Err) : Makes k (finish e k) none :=
    makes_of_plain hk hrun ((stored_refl hk.valid).finish e)
  cases c with
  | done => exact hfinish .eok
  | semTake => exact hfinish _
  | mutexTake m time =>
    simp only [continueWith, contMove]
    split_ifs
    · exact takeAgain_makes hk hrun m time
    · exact hfinish _
  | eventRecv =>
    simp only [continueWith, contMove]
    split_ifs
    · exact hfinish _
    · exact makes_of_plain hk hrun ((stored_setRecved hk.valid _).finish .eok)
  | sleep =>
    simp only [continueWith, contMove]
    split_ifs
    · exact makes_of_plain hk hrun ((stored_setSelfError hk.valid .eok).finish .eok)
    · exact hfinish .eok
  | mbSendWait i value timeout tickDelta =>
    simp only [continueWith, contMove]
    split_ifs
    · exact hfinish _
    · exact makes_of_plain hk hrun (mbSendLoop_plain hrun i value _ tickDelta)
  | mbRecv i timeout tickDelta =>
    simp only [continueWith, contMove]
    split_ifs
    · exact hfinish _
    · exact makes_of_plain hk hrun (mbRecvLoop_plain hrun i _ tickDelta)
  | mqRecv i size timeout tickDelta =>
    simp only [continueWith, contMove]
    split_ifs
    · exact hfinish _
    · exact makes_of_plain hk hrun (mqRecvLoop_plain hrun i size _ tickDelta)

structure Switches (k k' : Kernel) (o : Option Move) : Prop where
  inv : Inv k'
  view : view k' = actOption (rtThreadSelf k) (view k) o
  settled : Settled k'.sched

theorem switches_rtSchedule (b : Kernel) (hk : Inv k) {s : Sched} {o : Option Move}
    (hs : Valid s) (hinit : s.initPriority = k.sched.initPriority)
    (hstarted : ∀ t, k.sched.stat t ≠ .init → s.stat t ≠ .init)
    (hpriority : s.currentPriority = k.sched.currentPriority) (hmutex : b.mutex = k.mutex)
    (hidle : b.pc idleThread = .user)
    (hview : view { k with sched := s } = actOption (rtThreadSelf k) (view k) o) :
    Switches k { b with sched := rtSchedule s } o := by
  have hsettled := hs.settled
  refine ⟨⟨hs.rtSchedule, .inr hsettled.running, hidle, ?_, ?_, ?_, ?_⟩, ?_, hsettled⟩
  · intro m o ho
    simp only [hmutex] at ho
    exact fun ht ↦ hstarted o (hk.started m o ho) (hs.rtSchedule_init.mp ht)
  · intro m o ho
    simp only [hmutex] at ho ⊢
    exact hk.saved m o ho
  · simp only [rtSchedule_initPriority, hinit]
    exact hk.initial
  · intro t ht
    simp only [rtSchedule_initPriority, rtSchedule_currentPriority, hinit, hpriority]
    apply hk.fresh
    by_contra hne
    exact hstarted t hne (hs.rtSchedule_init.mp ht)
  · rw [← hview]
    ext1
    · exact rtSchedule_initPriority
    · exact rtSchedule_currentPriority
    · exact hmutex
    · exact funext fun m ↦ hs.rtSchedule_queue rfl

theorem Inv.same (hk : Inv k) (hs : k'.sched = k.sched) (hm : k'.mutex = k.mutex)
    (hp : k'.pc = k.pc) : Inv k' ∧ view k' = view k := by
  refine ⟨⟨?_, ?_, ?_, ?_, ?_, ?_, ?_⟩, ?_⟩
  · exact hs ▸ hk.valid
  · simpa only [rtThreadSelf, hs, hp] using hk.going
  · exact hp ▸ hk.idle
  · simpa only [hm, hs] using hk.started
  · simpa only [hm] using hk.saved
  · simpa only [hs] using hk.initial
  · simpa only [hs] using hk.fresh
  · simp only [view, hs, hm]

structure Acting (k : Kernel) : Prop extends Running k where
  pc : ∀ c, k.pc (rtThreadSelf k) ≠ .schedule c

theorem Inv.acting (hk : Inv k) (hpc : ∀ c, k.pc (rtThreadSelf k) ≠ .schedule c)
    (hidle : rtThreadSelf k ≠ idleThread) : Acting k where
  valid := hk.valid
  running := hk.going.resolve_left fun ⟨c, hc⟩ ↦ hpc c hc
  not_idle := hidle
  pc := hpc

/-- What an event can do: the current thread does something in a call, or
`rt_schedule` is called last, or nothing that matters here happens. -/
theorem step_cases (hk : Inv k) (e : Input) :
    Acting k ∧ Makes k (step k e) (move k e) ∨ Switches k (step k e) (move k e) ∨
      (step k e).sched = k.sched ∧ (step k e).mutex = k.mutex ∧ (step k e).pc = k.pc ∧
        move k e = none := by
  have hnot_idle (hpc : k.pc (rtThreadSelf k) ≠ .user) : rtThreadSelf k ≠ idleThread := by
    intro hidle
    exact hpc (hidle ▸ hk.idle)
  cases e with
  | call c =>
    simp only [step, move]
    cases hpc : k.pc (rtThreadSelf k) with
    | user =>
      dsimp only
      split_ifs with hidle
      · exact .inr (.inr ⟨rfl, rfl, rfl, rfl⟩)
      · have hact := hk.acting (by simp [hpc]) hidle
        exact .inl ⟨hact, invoke_makes hk hact.toRunning c⟩
    | _ => exact .inr (.inr ⟨rfl, rfl, rfl, rfl⟩)
  | go =>
    simp only [step, move, proceed]
    cases hpc : k.pc (rtThreadSelf k) with
    | user => exact .inr (.inr ⟨rfl, rfl, rfl, rfl⟩)
    | schedule c =>
      refine .inr (.inl ?_)
      refine switches_rtSchedule (goTo (.resumed c) k) hk hk.valid rfl (fun _ ht ↦ ht) rfl
        rfl ?_ rfl
      exact (Function.update_of_ne (hnot_idle (by simp [hpc])).symm _ _).trans hk.idle
    | resumed c =>
      have hact := hk.acting (by simp [hpc]) (hnot_idle (by simp [hpc]))
      exact .inl ⟨hact, continueWith_makes hk hact.toRunning c⟩
    | mqLink urgent i slot buffer =>
      have hact := hk.acting (by simp [hpc]) (hnot_idle (by simp [hpc]))
      have hplain := mqLink_plain hact.toRunning urgent i slot buffer
      exact .inl ⟨hact, makes_of_plain hk hact.toRunning hplain⟩
    | mqFree i slot size =>
      have hact := hk.acting (by simp [hpc]) (hnot_idle (by simp [hpc]))
      have hplain := mqFree_plain hact.toRunning i slot size
      exact .inl ⟨hact, makes_of_plain hk hact.toRunning hplain⟩
  | timeout t =>
    simp only [step, move]
    split_ifs with htimer
    · have hsuspend := hk.valid.timer t htimer
      refine .inr (.inl ?_)
      refine switches_rtSchedule k hk (hk.valid.timedOut hsuspend) (by simp [setError]) ?_
        (by simp [setError]) rfl hk.idle ?_
      · intro u hu
        simp only [rtScheduleInsertThread_stat, Function.update_apply]
        split_ifs
        · simp
        · simp
        · exact hu
      · ext1
        · exact rtScheduleInsertThread_initPriority
        · exact rtScheduleInsertThread_currentPriority
        · rfl
        · exact funext fun m ↦ rtScheduleInsertThread_queue rfl
    · exact .inr (.inr ⟨rfl, rfl, rfl, rfl⟩)
  | tick =>
    simp only [step, rtTickIncrease]
    split_ifs
    · exact .inr (.inl (switches_rtSchedule _ hk hk.valid rfl (fun _ ht ↦ ht) rfl rfl hk.idle rfl))
    · exact .inr (.inr ⟨rfl, rfl, rfl, rfl⟩)

theorem inv_step (hk : Inv k) (e : Input) : Inv (step k e) := by
  obtain ⟨-, h⟩ | h | ⟨hs, hm, hp, -⟩ := step_cases hk e
  · exact h.inv
  · exact h.inv
  · exact (hk.same hs hm hp).1

theorem view_step (hk : Inv k) (e : Input) :
    view (step k e) = actOption (rtThreadSelf k) (view k) (move k e) := by
  obtain ⟨-, h⟩ | h | ⟨hs, hm, hp, hnone⟩ := step_cases hk e
  · exact h.view
  · exact h.view
  · rw [hnone]
    exact (hk.same hs hm hp).2

theorem takeMove_ne_release {n : ℕ} {time : BitVec 32} : takeMove n time k ≠ some (.release m) := by
  rw [takeMove]
  split_ifs <;> simp

theorem callMove_release {c : Call} (h : callMove c k = some (.release m)) :
    c = .mutexRelease m := by
  cases c with
  | mutexTake n time =>
    rw [callMove] at h
    split_ifs at h
    · cases h
    · exact absurd h takeMove_ne_release
  | mutexRelease n =>
    rw [callMove] at h
    split_ifs at h
    · cases h
      rfl
    · cases h
  | _ => cases h

theorem acting_of_move (hk : Inv k) {e : Input} {o : Move} (hmove : move k e = some o)
    (ho : ∀ t, o ≠ .leave t) : Acting k := by
  cases e with
  | call c =>
    rw [move] at hmove
    cases hpc : k.pc (rtThreadSelf k) with
    | user =>
      simp only [hpc] at hmove
      split_ifs at hmove with hidle
      exact hk.acting (by simp [hpc]) hidle
    | _ => simp [hpc] at hmove
  | go =>
    rw [move] at hmove
    cases hpc : k.pc (rtThreadSelf k) with
    | resumed c =>
      refine hk.acting (by simp [hpc]) fun hidle ↦ ?_
      rw [hidle, hk.idle] at hpc
      cases hpc
    | _ => simp [hpc] at hmove
  | timeout t =>
    rw [move] at hmove
    split_ifs at hmove
    exact absurd (Option.some.inj hmove).symm (ho t)
  | tick => cases hmove

/-- Only a call of `rt_mutex_release` gives back a last take. -/
theorem makes_of_release (hk : Inv k) {e : Input} (hmove : move k e = some (.release m)) :
    Acting k ∧ Makes k (step k e) (some (.release m)) ∧ e = .call (.mutexRelease m) := by
  have hact := acting_of_move hk hmove (by simp)
  refine ⟨hact, ?_⟩
  cases e with
  | call c =>
    rw [move] at hmove
    cases hpc : k.pc (rtThreadSelf k) with
    | user =>
      simp only [hpc] at hmove
      split_ifs at hmove with hidle
      obtain rfl := callMove_release hmove
      refine ⟨?_, rfl⟩
      simp only [step, hpc, if_neg hidle]
      exact hmove ▸ rtMutexRelease_makes hk hact.toRunning m
    | _ => simp [hpc] at hmove
  | go =>
    rw [move] at hmove
    cases hpc : k.pc (rtThreadSelf k) with
    | resumed c =>
      simp only [hpc] at hmove
      cases c with
      | mutexTake n time =>
        rw [contMove] at hmove
        split_ifs at hmove
        exact absurd hmove takeMove_ne_release
      | _ => cases hmove
    | _ => simp [hpc] at hmove
  | timeout t =>
    rw [move] at hmove
    split_ifs at hmove
    cases hmove
  | tick => cases hmove

theorem consistent_boot (c : Setup) : Consistent (boot c).sched := by
  have hidle : c.priority idleThread = 31 := c.priority_idle
  refine ⟨⟨?_, ?_⟩, ?_, ?_, c.priority_lt, ?_, ?_, ?_⟩
  · intro h
    simp only [boot]
    split_ifs <;> simp
  · intro h h' t ht ht'
    simp only [boot] at ht ht'
    split_ifs at ht ht' <;> simp_all
  · intro t p
    simp only [boot, hidle]
    by_cases ht : t = idleThread
    · subst ht
      by_cases hp : p = 31 <;> simp [hp, hidle, eq_comm]
    · obtain rfl | hm := eq_or_ne t mainThread
      · simp [ht]
      · simp [ht, hm]
  · intro h t hh ht
    simp only [boot] at ht
    split_ifs at ht with hq
    · subst hq
      cases hh
    · simp at ht
  · intro t ht
    by_cases hi : t = idleThread
    · simp [boot, hi]
    · by_cases hm : t = mainThread <;> simp_all [boot]
  · intro p hp
    simp only [boot, hidle, getLsbD_one_shiftLeft hp]
    by_cases h31 : p = 31 <;> simp [h31]
  · intro t ht
    simp [boot] at ht

theorem inv_boot (c : Setup) : Inv (boot c) where
  valid := by
    refine ⟨consistent_boot c, rfl, ?_, .inl rfl, .inl rfl⟩
    intro t ht
    simp only [boot] at ht ⊢
    split_ifs at ht with hi hm
    exact hm
  going := .inr rfl
  idle := rfl
  started m o ho := by simp [boot] at ho
  saved m o ho := by simp [boot] at ho
  initial := c.priority_lt
  fresh _ _ := rfl

end GiantGecko.Rtos.MutexMoves
