import GiantGecko.Foundation.Transition
import GiantGecko.Rtos.MutexMoves
import GiantGecko.Rtos.ThreadStates

namespace GiantGecko.Rtos.WaitOrder

open Foundation.OrderedQueue Foundation.Intrusive Foundation.Transition
open Scheduler Ipc Interleaving

/-- What the kernel's calls do to the threads and to the lists on which they wait: each
is done with interrupts disabled, or is a part of what is. -/
inductive Op
  | error (t : ℕ) (e : Err)
  | startup (t : ℕ)
  | resume (t : ℕ)
  | suspend (t : ℕ)
  | sleep
  | timeout (t : ℕ)
  | schedule
  | control (t priority : ℕ)
  | inherit (owner : ℕ)
  | wait (h : Head) (time : BitVec 32)
  | listResume (h : Head)

def flagOf (c : Setup) : Head → IpcFlag
  | .ready _ => .fifo
  | .sem i => (c.sem i).flag
  | .mutex m => c.mutexFlag m
  | .event e => c.eventFlag e
  | .mb i => c.mbFlag i
  | .mbSender i => c.mbFlag i
  | .mq i => c.mqFlag i

section Operations

variable (flag : Head → IpcFlag)

def inheritFrom (owner : ℕ) (s : Sched) : Sched :=
  if s.currentPriority s.currentThread < s.currentPriority owner then
    rtThreadChangePriority owner (s.currentPriority s.currentThread) s
  else s

def perform (s : Sched) : Op → Sched
  | .error t e => setError t e s
  | .startup t => (rtThreadStartup t s).getD s
  | .resume t => rtThreadResume t s
  | .suspend t => rtThreadSuspend t s
  | .sleep =>
    if s.stat s.currentThread = .running then
      let t := s.currentThread
      let s := rtThreadSuspend t s
      { s with threadTimer := Function.update s.threadTimer t true }
    else s
  | .timeout t => if s.stat t = .suspend then rtThreadTimeout t s else s
  | .schedule => rtSchedule s
  | .control t priority => rtThreadChangePriority t priority s
  | .inherit owner => inheritFrom owner s
  | .wait h time =>
    if h.waits ∧ s.stat s.currentThread = .running then
      startThreadTimer s.currentThread time (rtIpcListSuspend h s.currentThread (flag h) s)
    else s
  | .listResume h => rtIpcListResume h s

/-- `arrived` and `clock` are not in the source: when each thread began its last wait. -/
structure State where
  sched : Sched
  arrived : ℕ → ℕ
  clock : ℕ

def arrivals (s : State) : Op → ℕ → ℕ
  | .wait h _ =>
    if h.waits ∧ s.sched.stat s.sched.currentThread = .running then
      Function.update s.arrived s.sched.currentThread s.clock
    else s.arrived
  | _ => s.arrived

def step (s : State) (op : Op) : State := ⟨perform flag s.sched op, arrivals s op, s.clock + 1⟩

def Before (priority arrived : ℕ → ℕ) (t u : ℕ) : Prop :=
  priority t < priority u ∨ priority t = priority u ∧ arrived t < arrived u

/-- The lists of the objects with `RT_IPC_FLAG_PRIO` are in order, so that the first
waiter is as urgent as any. -/
structure Ordered (s : State) : Prop where
  sorted : ∀ h : Head, h.waits → flag h = .prio →
    (s.sched.queue h).Pairwise (Before s.sched.currentPriority s.arrived)
  first : ∀ h : Head, h.waits → flag h = .prio → ∀ t ∈ (s.sched.queue h).head?,
    ∀ u ∈ s.sched.queue h, s.sched.currentPriority t ≤ s.sched.currentPriority u

/-- A thread that waits is in the right place for a new priority. -/
def InPlace (s : State) (t priority : ℕ) : Prop :=
  ∀ h : Head, h.waits → flag h = .prio → t ∈ s.sched.queue h →
    (s.sched.queue h).Pairwise (Before (Function.update s.sched.currentPriority t priority) s.arrived)

def Fits (s : State) : Op → Prop
  | .control t priority => priority < rtThreadPriorityMax ∧ InPlace flag s t priority
  | .inherit owner =>
    s.sched.currentPriority s.sched.currentThread < s.sched.currentPriority owner →
      InPlace flag s owner (s.sched.currentPriority s.sched.currentThread)
  | _ => True

end Operations

def start (c : Setup) : State := ⟨(boot c).sched, fun _ ↦ 0, 0⟩

structure Inv (flag : Head → IpcFlag) (s : State) : Prop where
  consistent : Consistent s.sched
  init_lt : ∀ t, s.sched.initPriority t < 32
  arrived_lt : ∀ h t, h.waits → t ∈ s.sched.queue h → s.arrived t < s.clock
  sorted : ∀ h : Head, h.waits → flag h = .prio →
    (s.sched.queue h).Pairwise (Before s.sched.currentPriority s.arrived)

variable {flag : Head → IpcFlag} {f : IpcFlag} {s : State} {x y z : Sched} {t u p : ℕ} {h : Head}
  {priority arrived : ℕ → ℕ}

theorem Inv.ordered (hs : Inv flag s) : Ordered flag s := by
  refine ⟨hs.sorted, fun h hh hflag t ht u hu ↦ ?_⟩
  have hsorted := hs.sorted h hh hflag
  obtain ⟨l, hl⟩ : ∃ l, s.sched.queue h = t :: l := by
    cases hq : s.sched.queue h with
    | nil => simp [hq] at ht
    | cons v l =>
      rw [hq, List.head?_cons, Option.mem_some_iff] at ht
      exact ⟨l, ht ▸ rfl⟩
  rw [hl] at hu hsorted
  obtain rfl | hu := List.mem_cons.mp hu
  · exact le_rfl
  · obtain hlt | ⟨heq, -⟩ := (List.pairwise_cons.mp hsorted).1 u hu
    · exact hlt.le
    · exact heq.le

structure Thins (x y : Sched) : Prop where
  consistent : Consistent y
  initPriority : y.initPriority = x.initPriority
  queue : ∀ h : Head, h.waits → (y.queue h).Sublist (x.queue h)
  priority : ∀ h : Head, h.waits → ∀ t ∈ y.queue h, y.currentPriority t = x.currentPriority t

theorem Thins.trans (hxy : Thins x y) (hyz : Thins y z) : Thins x z where
  consistent := hyz.consistent
  initPriority := hyz.initPriority.trans hxy.initPriority
  queue h hh := (hyz.queue h hh).trans (hxy.queue h hh)
  priority h hh t ht :=
    (hyz.priority h hh t ht).trans (hxy.priority h hh t ((hyz.queue h hh).subset ht))

theorem Inv.thins (hs : Inv flag s) (hx : Thins s.sched x) : Inv flag ⟨x, s.arrived, s.clock + 1⟩ where
  consistent := hx.consistent
  init_lt t := by
    have hlt := hs.init_lt t
    rwa [← hx.initPriority] at hlt
  arrived_lt h t hh ht := Nat.lt_succ_of_lt (hs.arrived_lt h t hh ((hx.queue h hh).subset ht))
  sorted h hh hflag := by
    refine ((hs.sorted h hh hflag).sublist (hx.queue h hh)).imp_of_mem ?_
    intro t u ht hu hbefore
    simpa only [Before, hx.priority h hh t ht, hx.priority h hh u hu] using hbefore

open ThreadStates (Keeps keeps_resume keeps_suspend keeps_schedule keeps_timeout keeps_wait)

theorem Thins.of_keeps (hk : Keeps x y) (hq : ∀ h : Head, h.waits → (y.queue h).Sublist (x.queue h)) :
    Thins x y :=
  ⟨hk.consistent, hk.initPriority, hq, fun _ _ t _ ↦ congrFun hk.currentPriority t⟩

theorem unlink_sublist {q : Head → List ℕ} : (unlink t q h).Sublist (q h) := List.filter_sublist

theorem thins_refl (hx : Consistent x) : Thins x x :=
  ⟨hx, rfl, fun _ _ ↦ List.Sublist.refl _, fun _ _ _ _ ↦ rfl⟩

theorem thins_setError (hx : Consistent x) (t : ℕ) (e : Err) : Thins x (setError t e x) :=
  ⟨⟨hx.linked, hx.ready, hx.waiting, hx.priority, hx.mask, hx.group, hx.timer⟩, rfl,
    fun _ _ ↦ List.Sublist.refl _, fun _ _ _ _ ↦ rfl⟩

theorem thins_resume (hx : Consistent x) (t : ℕ) : Thins x (rtThreadResume t x) := by
  refine Thins.of_keeps (keeps_resume hx t) fun h hh ↦ ?_
  by_cases hsuspend : x.stat t = .suspend
  · rw [resume_queue hh hsuspend]
    exact unlink_sublist
  · rw [rtThreadResume, if_neg hsuspend]

theorem thins_listResume (hx : Consistent x) (h : Head) : Thins x (rtIpcListResume h x) := by
  rw [rtIpcListResume]
  cases x.queue h with
  | nil => exact thins_refl hx
  | cons t l => exact thins_resume hx t

theorem thins_suspend (hx : Consistent x) (t : ℕ) : Thins x (rtThreadSuspend t x) := by
  refine Thins.of_keeps (keeps_suspend hx t) fun h hh ↦ ?_
  rw [rtThreadSuspend]
  split_ifs
  · simp only [rtScheduleRemoveThread_queue]
    exact unlink_sublist
  · exact List.Sublist.refl _

theorem thins_schedule (hx : Consistent x) : Thins x (rtSchedule x) :=
  Thins.of_keeps (keeps_schedule hx) fun h hh ↦ by rw [hx.rtSchedule_queue hh]

theorem thins_timeout (hx : Consistent x) (hsuspend : x.stat t = .suspend) :
    Thins x (rtThreadTimeout t x) := by
  refine Thins.of_keeps (keeps_timeout hx hsuspend) fun h hh ↦ ?_
  rw [rtThreadTimeout, (hx.timedOut hsuspend).rtSchedule_queue hh, rtScheduleInsertThread_queue hh]
  exact unlink_sublist

theorem thins_sleep (hx : Consistent x) (hrunning : x.stat x.currentThread = .running) :
    Thins x
      { rtThreadSuspend x.currentThread x with
        threadTimer := Function.update (rtThreadSuspend x.currentThread x).threadTimer
          x.currentThread true } := by
  have hdetached := hx.detached hrunning
  rw [hx.suspend_eq hrunning]
  simp only [Function.update_idem]
  exact ⟨hdetached.suspended hx.linked (fun _ ↦ rfl) (fun _ _ _ hmem ↦ .inl hmem) true, rfl,
    fun _ _ ↦ List.Sublist.refl _, fun _ _ _ _ ↦ rfl⟩

theorem thins_startup (hx : Consistent x) (hinit : x.stat t = .init) (hp : x.initPriority t < 32) :
    Thins x ((rtThreadStartup t x).getD x) := by
  have hstarted := hx.started hinit hp
  have hunlinked := hx.unlinked (t := t) (by simp [hinit]) (by simp [hinit])
  have hkeeps := keeps_resume hstarted t
  rw [rtThreadStartup, if_pos hinit, Option.getD_some]
  refine ⟨hkeeps.consistent, hkeeps.initPriority, fun h hh ↦ ?_, fun h hh u hu ↦ ?_⟩
  · rw [resume_queue hh (Function.update_self _ _ _)]
    exact unlink_sublist
  · rw [resume_queue hh (Function.update_self _ _ _)] at hu
    have hut := (mem_unlink.mp hu).2
    rw [rtThreadResume_currentPriority]
    exact Function.update_of_ne hut _ _

theorem Inv.change (hs : Inv flag s) (hp : p < 32) (hplace : InPlace flag s t p) :
    Inv flag ⟨rtThreadChangePriority t p s.sched, s.arrived, s.clock + 1⟩ := by
  have hpriority : (rtThreadChangePriority t p s.sched).currentPriority =
      Function.update s.sched.currentPriority t p := rtThreadChangePriority_currentPriority
  refine ⟨hs.consistent.changePriority hp t, fun u ↦ ?_, fun h u hh hu ↦ ?_, fun h hh hflag ↦ ?_⟩
  · simpa only [rtThreadChangePriority_initPriority] using hs.init_lt u
  · rw [hs.consistent.changePriority_queue hh] at hu
    exact Nat.lt_succ_of_lt (hs.arrived_lt h u hh hu)
  · simp only [hs.consistent.changePriority_queue hh, hpriority]
    by_cases hmem : t ∈ s.sched.queue h
    · exact hplace h hh hflag hmem
    · refine (hs.sorted h hh hflag).imp_of_mem ?_
      intro u v hu hv hbefore
      have hut := ne_of_mem_of_not_mem hu hmem
      have hvt := ne_of_mem_of_not_mem hv hmem
      simpa only [Before, Function.update_of_ne hut, Function.update_of_ne hvt] using hbefore

theorem pairwise_waitersWith {l : List ℕ} (hl : l.Pairwise (Before priority arrived)) (hout : t ∉ l)
    {now : ℕ} (hnow : ∀ u ∈ l, arrived u < now) :
    (waitersWith .prio priority t l).Pairwise (Before priority (Function.update arrived t now)) := by
  have hsame (u : ℕ) (hu : u ∈ l) : Function.update arrived t now u = arrived u :=
    Function.update_of_ne (ne_of_mem_of_not_mem hu hout) _ _
  have hl' : l.Pairwise (Before priority (Function.update arrived t now)) := by
    refine hl.imp_of_mem ?_
    intro u v hu hv hbefore
    simpa only [Before, hsame u hu, hsame v hv] using hbefore
  refine pairwise_insertBehind hl' ?_ ?_ ?_
  · intro u hu hstays
    have hle : priority u ≤ priority t := not_lt.mp (of_decide_eq_true hstays)
    obtain hlt | heq := hle.lt_or_eq
    · exact .inl hlt
    · refine .inr ⟨heq, ?_⟩
      rw [hsame u hu, Function.update_self]
      exact hnow u hu
  · intro u _ hstays
    exact .inl (not_not.mp (of_decide_eq_false hstays))
  · intro u _ v _ hbefore hstays
    have hle : priority v ≤ priority t := not_lt.mp (of_decide_eq_true hstays)
    have hlt : priority u ≤ priority v := by
      obtain hlt | ⟨heq, -⟩ := hbefore
      · exact hlt.le
      · exact heq.le
    exact decide_eq_true (not_lt.mpr (hlt.trans hle))

theorem Inv.wait (hs : Inv flag s) (hh : h.waits)
    (hrunning : s.sched.stat s.sched.currentThread = .running) (time : BitVec 32) :
    Inv flag
      ⟨startThreadTimer s.sched.currentThread time
          (rtIpcListSuspend h s.sched.currentThread (flag h) s.sched),
        Function.update s.arrived s.sched.currentThread s.clock, s.clock + 1⟩ := by
  have hkeeps := keeps_wait hs.consistent hrunning hh (flag h) time
  have hunlinked := (hs.consistent.detached hrunning).unlinked
  have hperm : (waitersWith (flag h) s.sched.currentPriority s.sched.currentThread
      (s.sched.queue h)).Perm (s.sched.currentThread :: s.sched.queue h) := waitersWith_perm
  have hblock := hs.consistent.block_eq hrunning (flag h) time (h := h)
  have hqueue := congrArg Sched.queue hblock
  refine ⟨hkeeps.consistent, fun t ↦ ?_, fun i t hi ht ↦ ?_, fun i hi hflag ↦ ?_⟩
  · simpa only [hkeeps.initPriority] using hs.init_lt t
  · simp only [hqueue] at ht
    obtain hmem | ⟨rfl, -⟩ := (mem_update_perm hperm).mp ht
    · have hne := ne_of_mem_of_not_mem hmem (hunlinked i)
      simpa only [Function.update_of_ne hne] using Nat.lt_succ_of_lt (hs.arrived_lt i t hi hmem)
    · simp only [Function.update_self]
      exact Nat.lt_succ_self _
  · simp only [hqueue, hkeeps.currentPriority]
    obtain rfl | hne := eq_or_ne i h
    · rw [Function.update_self, hflag]
      exact pairwise_waitersWith (hs.sorted i hi hflag) (hunlinked i) fun u hu ↦ hs.arrived_lt i u hi hu
    · rw [Function.update_of_ne hne]
      refine (hs.sorted i hi hflag).imp_of_mem ?_
      intro u v hu hv hbefore
      have hsame (w : ℕ) (hw : w ∈ s.sched.queue i) :=
        Function.update_of_ne (ne_of_mem_of_not_mem hw (hunlinked i)) s.clock s.arrived
      simpa only [Before, hsame u hu, hsame v hv] using hbefore

theorem inv_step (s : State) (op : Op) (hs : Inv flag s) (hop : Fits flag s op) :
    Inv flag (step flag s op) := by
  cases op with
  | error t e => exact hs.thins (thins_setError hs.consistent t e)
  | startup t =>
    simp only [step, perform]
    by_cases hinit : s.sched.stat t = .init
    · exact hs.thins (thins_startup hs.consistent hinit (hs.init_lt t))
    · rw [rtThreadStartup, if_neg hinit, Option.getD_none]
      exact hs.thins (thins_refl hs.consistent)
  | resume t => exact hs.thins (thins_resume hs.consistent t)
  | suspend t => exact hs.thins (thins_suspend hs.consistent t)
  | sleep =>
    simp only [step, perform]
    split_ifs with hrunning
    · exact hs.thins (thins_sleep hs.consistent hrunning)
    · exact hs.thins (thins_refl hs.consistent)
  | timeout t =>
    simp only [step, perform]
    split_ifs with hsuspend
    · exact hs.thins (thins_timeout hs.consistent hsuspend)
    · exact hs.thins (thins_refl hs.consistent)
  | schedule => exact hs.thins (thins_schedule hs.consistent)
  | control t p => exact hs.change hop.1 hop.2
  | inherit o =>
    simp only [step, perform, inheritFrom]
    split_ifs with hlt
    · exact hs.change (hs.consistent.priority _) (hop hlt)
    · exact hs.thins (thins_refl hs.consistent)
  | wait h time =>
    simp only [step, perform, arrivals]
    split_ifs with hwaits
    · exact hs.wait hwaits.1 hwaits.2 time
    · exact hs.thins (thins_refl hs.consistent)
  | listResume h => exact hs.thins (thins_listResume hs.consistent h)

theorem start_queue (c : Setup) (hh : h.waits) : (start c).sched.queue h = [] := by
  refine if_neg ?_
  rintro rfl
  cases hh

theorem inv_start (flag : Head → IpcFlag) (c : Setup) : Inv flag (start c) where
  consistent := MutexMoves.consistent_boot c
  init_lt := c.priority_lt
  arrived_lt h t hh ht := by
    rw [start_queue c hh] at ht
    exact absurd ht List.not_mem_nil
  sorted h hh _ := by
    rw [start_queue c hh]
    exact List.Pairwise.nil

theorem ordered_of_fits (c : Setup) {ops : List Op}
    (hops : Along (step (flagOf c)) (Fits (flagOf c)) (start c) ops) :
    Ordered (flagOf c) (ops.foldl (step (flagOf c)) (start c)) :=
  (run_invariant inv_step (inv_start (flagOf c) c) hops).ordered

section Calls

/-! The calls of `Ipc` and what comes between them do nothing else to the scheduler's data. -/

def kernelFlag (k : Kernel) : Head → IpcFlag
  | .ready _ => .fifo
  | .sem i => (k.sem i).flag
  | .mutex m => (k.mutex m).flag
  | .event e => (k.event e).flag
  | .mb i => (k.mb i).flag
  | .mbSender i => (k.mb i).flag
  | .mq i => (k.mq i).flag

structure Emits (k k' : Kernel) : Prop where
  ops : ∃ ops : List Op, k'.sched = ops.foldl (perform (kernelFlag k)) k.sched
  flag : kernelFlag k' = kernelFlag k

variable {k k' k'' : Kernel} {i m e : ℕ} {c : Cont}

theorem Emits.trans (h : Emits k k') (h' : Emits k' k'') : Emits k k'' := by
  obtain ⟨ops, hops⟩ := h.ops
  obtain ⟨ops', hops'⟩ := h'.ops
  refine ⟨⟨ops ++ ops', ?_⟩, h'.flag.trans h.flag⟩
  rw [hops', hops, h.flag, List.foldl_append]

theorem emits_of_sched (hsched : k'.sched = k.sched) (hflag : kernelFlag k' = kernelFlag k) :
    Emits k k' := ⟨⟨[], hsched⟩, hflag⟩

theorem emits_op (op : Op) (hsched : k'.sched = perform (kernelFlag k) k.sched op)
    (hflag : kernelFlag k' = kernelFlag k) : Emits k k' := ⟨⟨[op], hsched⟩, hflag⟩

theorem Emits.finish (h : Emits k k') (e : Err) : Emits k (Ipc.finish e k') :=
  h.trans (emits_of_sched rfl rfl)

theorem emits_refl (k : Kernel) : Emits k k := emits_of_sched rfl rfl

theorem emits_setSelfError (e : Err) : Emits k (setSelfError e k) := emits_op (.error _ e) rfl rfl

theorem emits_setSem {x : Semaphore} (hx : x.flag = (k.sem i).flag) : Emits k (setSem i x k) := by
  refine emits_of_sched rfl (funext fun h ↦ ?_)
  cases h with
  | sem j => obtain rfl | hne := eq_or_ne j i <;> simp_all [kernelFlag, setSem]
  | _ => rfl

theorem emits_setMutex {x : Mutex} (hx : x.flag = (k.mutex m).flag) : Emits k (setMutex m x k) := by
  refine emits_of_sched rfl (funext fun h ↦ ?_)
  cases h with
  | mutex j => obtain rfl | hne := eq_or_ne j m <;> simp_all [kernelFlag, setMutex]
  | _ => rfl

theorem emits_setEvent (set : BitVec 32) : Emits k (setEvent e set k) := by
  refine emits_of_sched rfl (funext fun h ↦ ?_)
  cases h with
  | event j => obtain rfl | hne := eq_or_ne j e <;> simp_all [kernelFlag, setEvent]
  | _ => rfl

theorem emits_setMb {x : Mailbox} (hx : x.flag = (k.mb i).flag) : Emits k (setMb i x k) := by
  refine emits_of_sched rfl (funext fun h ↦ ?_)
  cases h with
  | mb j => obtain rfl | hne := eq_or_ne j i <;> simp_all [kernelFlag, setMb]
  | mbSender j => obtain rfl | hne := eq_or_ne j i <;> simp_all [kernelFlag, setMb]
  | _ => rfl

theorem emits_setMq {x : MessageQueue} (hx : x.flag = (k.mq i).flag) : Emits k (setMq i x k) := by
  refine emits_of_sched rfl (funext fun h ↦ ?_)
  cases h with
  | mq j => obtain rfl | hne := eq_or_ne j i <;> simp_all [kernelFlag, setMq]
  | _ => rfl

theorem emits_waitOn (hrunning : k.sched.stat (rtThreadSelf k) = .running) (hh : h.waits)
    (hf : f = kernelFlag k h) (time : BitVec 32) : Emits k (waitOn h f time c k) := by
  refine emits_op (.wait h time) ?_ rfl
  rw [perform, if_pos ⟨hh, hrunning⟩, hf]
  rfl

theorem emits_resumeFirst (h : Head) : Emits k (resumeFirst h k) := by
  rw [resumeFirst]
  split_ifs
  · exact emits_of_sched rfl rfl
  · exact emits_op (.listResume h) rfl rfl

theorem rtSemTake_emits (hrunning : k.sched.stat (rtThreadSelf k) = .running) (time : BitVec 32) :
    Emits k (rtSemTake i time k) := by
  rw [rtSemTake]
  split_ifs
  · exact (emits_setSem (by rfl)).finish .eok
  · exact (emits_refl k).finish .etimeout
  · exact (emits_setSelfError .eok).trans (emits_waitOn (k := setSelfError .eok k) hrunning rfl rfl time)

theorem rtSemRelease_emits : Emits k (rtSemRelease i k) := by
  rw [rtSemRelease]
  split_ifs
  · exact (emits_setSem (by rfl)).finish .eok
  · exact emits_op (.listResume (.sem i)) rfl rfl

theorem inherit_emits : Emits k (Ipc.inherit m k) := by
  rw [Ipc.inherit]
  cases (k.mutex m).owner with
  | none => exact emits_refl k
  | some o =>
    dsimp only
    split_ifs with hlt
    · refine emits_op (.inherit o) ?_ rfl
      exact (if_pos hlt).symm
    · exact emits_refl k

theorem takeAgain_emits (hk : MutexMoves.Inv k) (hrun : Outcome.Running k) (time : BitVec 32) :
    Emits k (takeAgain m time k) := by
  rw [takeAgain]
  split_ifs
  · exact (emits_setMutex (by rfl)).finish .eok
  · exact (emits_setSelfError .etimeout).finish .etimeout
  · have hpriced := MutexMoves.inherit_repriced hk.valid (m := m)
    have hflag := inherit_emits (k := k) (m := m)
    refine hflag.trans (emits_waitOn (hpriced.running hrun).running rfl ?_ time)
    exact congrFun hflag.flag.symm (.mutex m)

theorem restore_emits : Emits k (restore m k) := by
  rw [restore]
  split_ifs
  · exact emits_op (.control _ _) rfl rfl
  · exact emits_refl k

theorem passOn_emits : Emits k (passOn m k) := by
  rw [passOn]
  split
  · exact (emits_setMutex (by rfl)).trans (emits_op (.listResume (.mutex m)) rfl rfl)
  · exact (emits_setMutex (by rfl)).finish .eok

theorem rtMutexTake_emits (hk : MutexMoves.Inv k) (hrun : Outcome.Running k) (time : BitVec 32) :
    Emits k (rtMutexTake m time k) := by
  have hstored := Outcome.stored_setSelfError hk.valid .eok
  refine (emits_setSelfError .eok).trans ?_
  rw [MutexMoves.rtMutexTake_eq]
  split_ifs
  · exact (emits_setMutex (by rfl)).finish .eok
  · exact takeAgain_emits (MutexMoves.inv_of_plain hk hrun hstored.plain) (hrun.stored hstored) time

theorem rtMutexRelease_emits : Emits k (rtMutexRelease m k) := by
  rw [MutexMoves.rtMutexRelease_eq]
  split_ifs
  · exact (emits_setSelfError .error).finish .error
  · exact (emits_setMutex (by rfl)).trans (restore_emits.trans passOn_emits)
  · exact (emits_setMutex (by rfl)).finish .eok

theorem eventTurn_emits {r : Kernel × Bool} (hr : Emits k r.1) : Emits k (eventTurn e r t).1 := by
  have hgrant (k' : Kernel) (h : Emits k k') : Emits k (grantEvent e t k') := by
    rw [grantEvent]
    split_ifs
    · exact (h.trans (emits_setEvent _)).trans (emits_op (.resume t) rfl rfl)
    · exact h.trans (emits_op (.resume t) rfl rfl)
  rw [eventTurn]
  split_ifs
  · exact hgrant _ hr
  · exact hr
  · exact hgrant _ (hr.trans (emits_of_sched rfl rfl))
  · exact hr
  · exact hr

theorem rtEventSend_emits (set : BitVec 32) : Emits k (rtEventSend e set k) := by
  have hwalk (l : List ℕ) (r : Kernel × Bool) (hr : Emits k r.1) :
      Emits k (l.foldl (eventTurn e) r).1 := by
    induction l generalizing r with
    | nil => exact hr
    | cons t l ih => exact ih _ (eventTurn_emits hr)
  rw [rtEventSend]
  split_ifs
  · exact (emits_refl k).finish .error
  · dsimp only
    split_ifs
    · exact (hwalk _ _ (emits_setEvent _)).trans (emits_of_sched rfl rfl)
    · exact (hwalk _ _ (emits_setEvent _)).finish .eok

theorem rtEventRecv_emits (hrunning : k.sched.stat (rtThreadSelf k) = .running) (set : BitVec 32)
    (option : EventOption) (timeout : BitVec 32) : Emits k (rtEventRecv e set option timeout k) := by
  have hreset := emits_setSelfError (k := k) .eok
  have hrecved (value : BitVec 32) (k' : Kernel) : Emits k' (setRecved value k') :=
    emits_of_sched rfl rfl
  simp only [rtEventRecv]
  split
  · exact (emits_refl k).finish .error
  · split
    · split
      · split
        · exact ((hreset.trans (hrecved _ _)).trans (emits_setEvent _)).finish .eok
        · exact (hreset.trans (hrecved _ _)).finish .eok
      · split
        · exact (hreset.trans (emits_setSelfError .etimeout)).finish .etimeout
        · refine (hreset.trans (emits_of_sched ?_ ?_)).trans (emits_waitOn ?_ rfl ?_ timeout)
          all_goals first | exact hrunning | rfl
    · exact emits_refl k

theorem mbSendLoop_emits (hrunning : k.sched.stat (rtThreadSelf k) = .running)
    (value timeout tickDelta : BitVec 32) : Emits k (mbSendLoop i value timeout tickDelta k) := by
  simp only [mbSendLoop]
  split
  · split
    · exact (emits_setSelfError .eok).finish .efull
    · exact (emits_setSelfError .eok).trans (emits_waitOn (k := setSelfError .eok k) hrunning rfl rfl _)
  · exact (emits_setMb (by rfl)).trans (emits_resumeFirst _)

theorem mbRecvLoop_emits (hrunning : k.sched.stat (rtThreadSelf k) = .running)
    (timeout tickDelta : BitVec 32) : Emits k (mbRecvLoop i timeout tickDelta k) := by
  simp only [mbRecvLoop]
  split
  · split
    · exact ((emits_setSelfError .eok).trans (emits_setSelfError .etimeout)).finish .etimeout
    · exact (emits_setSelfError .eok).trans (emits_waitOn (k := setSelfError .eok k) hrunning rfl rfl _)
  · have hrecved : Emits k (setRecved ((k.mb i).msgPool (k.mb i).outOffset) k) :=
      emits_of_sched rfl rfl
    have hfetched := hrecved.trans (emits_setMb (i := i) (x := (k.mb i).fetch) rfl)
    exact hfetched.trans (emits_resumeFirst _)

theorem mqRecvLoop_emits (hrunning : k.sched.stat (rtThreadSelf k) = .running) (size : ℕ)
    (timeout tickDelta : BitVec 32) : Emits k (mqRecvLoop i size timeout tickDelta k) := by
  simp only [mqRecvLoop]
  split
  · split
    · exact ((emits_setSelfError .eok).trans (emits_setSelfError .etimeout)).finish .etimeout
    · exact (emits_setSelfError .eok).trans (emits_waitOn (k := setSelfError .eok k) hrunning rfl rfl _)
  · split
    · exact emits_refl k
    · exact (emits_setMq (by rfl)).trans (emits_of_sched rfl rfl)

theorem rtMqSend_emits {urgent : Bool} {buffer : List UInt8} :
    Emits k (rtMqSend urgent i buffer k) := by
  rw [rtMqSend]
  split_ifs
  · exact emits_refl k
  · exact (emits_refl k).finish .error
  · split
    · exact (emits_refl k).finish .efull
    · exact (emits_setMq (by rfl)).trans (emits_of_sched rfl rfl)

theorem threadStartup_emits : Emits k (threadStartup t k) := by
  rw [threadStartup]
  cases hstart : rtThreadStartup t k.sched with
  | none => exact emits_refl k
  | some x =>
    refine emits_op (.startup t) ?_ rfl
    rw [perform, hstart]
    rfl

theorem invoke_emits (hk : MutexMoves.Inv k) (hrun : Outcome.Running k) (c : Call) :
    Emits k (invoke c k) := by
  cases c with
  | semTake i time => exact rtSemTake_emits hrun.running time
  | semRelease i => exact rtSemRelease_emits
  | mutexTake m time => exact rtMutexTake_emits hk hrun time
  | mutexRelease m => exact rtMutexRelease_emits
  | eventSend e set => exact rtEventSend_emits set
  | eventRecv e set option timeout => exact rtEventRecv_emits hrun.running set option timeout
  | mbSendWait i value timeout =>
    simp only [invoke, rtMbSendWait]
    split_ifs
    · exact (emits_refl k).finish .efull
    · exact mbSendLoop_emits hrun.running value timeout 0
  | mbRecv i timeout =>
    simp only [invoke, rtMbRecv]
    split_ifs
    · exact (emits_refl k).finish .etimeout
    · exact mbRecvLoop_emits hrun.running timeout 0
  | mqSend i buffer => exact rtMqSend_emits
  | mqUrgent i buffer => exact rtMqSend_emits
  | mqRecv i size timeout =>
    simp only [invoke, rtMqRecv]
    split_ifs
    · exact emits_refl k
    · exact (emits_refl k).finish .etimeout
    · exact mqRecvLoop_emits hrun.running size timeout 0
  | sleep =>
    refine emits_op .sleep ?_ rfl
    exact (if_pos hrun.running).symm
  | startup t => exact threadStartup_emits

theorem continueWith_emits (hk : MutexMoves.Inv k) (hrun : Outcome.Running k) (c : Cont) :
    Emits k (continueWith c k) := by
  have hfinish (e : Err) : Emits k (finish e k) := (emits_refl k).finish e
  cases c with
  | done => exact hfinish .eok
  | semTake => exact hfinish _
  | mutexTake m time =>
    simp only [continueWith]
    split_ifs
    · exact takeAgain_emits hk hrun time
    · exact hfinish _
  | eventRecv =>
    simp only [continueWith]
    split_ifs
    · exact hfinish _
    · refine Emits.finish ?_ .eok
      exact emits_of_sched rfl rfl
  | sleep =>
    simp only [continueWith]
    split_ifs
    · exact (emits_setSelfError .eok).finish .eok
    · exact hfinish .eok
  | mbSendWait i value timeout tickDelta =>
    simp only [continueWith]
    split_ifs
    · exact hfinish _
    · exact mbSendLoop_emits hrun.running value _ tickDelta
  | mbRecv i timeout tickDelta =>
    simp only [continueWith]
    split_ifs
    · exact hfinish _
    · exact mbRecvLoop_emits hrun.running _ tickDelta
  | mqRecv i size timeout tickDelta =>
    simp only [continueWith]
    split_ifs
    · exact hfinish _
    · exact mqRecvLoop_emits hrun.running size _ tickDelta

theorem linkLast_flag {x : MessageQueue} {slot : ℕ} : (x.linkLast slot).flag = x.flag := by
  rw [MessageQueue.linkLast]
  dsimp only
  split <;> rfl

theorem step_emits (hk : MutexMoves.Inv k) (e : Input) : Emits k (Interleaving.step k e) := by
  have hschedule (k' : Kernel) : Emits k' (onSched rtSchedule k') := emits_op .schedule rfl rfl
  have hnot_idle (hpc : k.pc (rtThreadSelf k) ≠ .user) : rtThreadSelf k ≠ idleThread := by
    intro hidle
    rw [hidle] at hpc
    exact hpc hk.idle
  cases e with
  | call c =>
    simp only [Interleaving.step]
    split
    next hpc =>
      split_ifs with hidle
      · exact emits_refl k
      · exact invoke_emits hk (hk.acting (by simp [hpc]) hidle).toRunning c
    · exact emits_refl k
  | go =>
    simp only [Interleaving.step, proceed]
    split
    · exact emits_refl k
    · refine Emits.trans ?_ (hschedule _)
      exact emits_of_sched rfl rfl
    next hpc =>
      exact continueWith_emits hk (hk.acting (by simp [hpc]) (hnot_idle (by simp [hpc]))).toRunning _
    · refine (emits_setMq ?_).trans (emits_resumeFirst _)
      split_ifs
      · rfl
      · exact linkLast_flag
    · refine Emits.finish (Emits.trans ?_ (emits_setMq (by rfl))) .eok
      exact emits_of_sched rfl rfl
  | timeout t =>
    simp only [Interleaving.step]
    split_ifs with htimer
    · refine emits_op (.timeout t) ?_ rfl
      exact (if_pos (hk.valid.timer t htimer)).symm
    · exact emits_refl k
  | tick =>
    simp only [Interleaving.step, rtTickIncrease]
    split_ifs
    · refine Emits.trans ?_ (hschedule _)
      exact emits_of_sched rfl rfl
    · exact emits_of_sched rfl rfl

theorem kernelFlag_boot (c : Setup) : kernelFlag (boot c) = flagOf c := by
  funext h
  cases h with
  | mq i =>
    have hslots (l : List ℕ) (x : MessageQueue) : (l.foldl (fun x slot ↦
        { x.setNext slot x.free with free := some slot }) x).flag = x.flag := by
      induction l generalizing x with
      | nil => rfl
      | cons slot l ih => exact ih _
    exact hslots _ _
  | _ => rfl

/-- Whatever the threads call, their lists are as some operations leave them. -/
theorem run_emits (c : Setup) (es : List Input) :
    ∃ ops : List Op, (es.foldl Interleaving.step (boot c)).sched =
      ops.foldl (perform (flagOf c)) (boot c).sched := by
  have hrun : MutexMoves.Inv (es.foldl Interleaving.step (boot c)) ∧
      Emits (boot c) (es.foldl Interleaving.step (boot c)) := by
    refine reachable_invariant (I := fun k ↦ MutexMoves.Inv k ∧ Emits (boot c) k) ?_
      ⟨MutexMoves.inv_boot c, emits_refl _⟩ es
    intro k e hk
    exact ⟨MutexMoves.inv_step hk.1 e, hk.2.trans (step_emits hk.1 e)⟩
  exact kernelFlag_boot c ▸ hrun.2.ops

end Calls

def threeWaiters : Setup := { threeThreads with sem := fun _ ↦ ⟨0, .prio⟩ }

theorem ordered_threeWaiters : Ordered (flagOf threeWaiters)
    (List.foldl (step (flagOf threeWaiters)) (start threeWaiters)
      [.control 1 25, .startup 3, .schedule, .wait (.sem 0) 5, .schedule, .inherit 3, .wait (.sem 0) 5,
        .timeout 3]) :=
  ordered_of_fits threeWaiters
    ⟨⟨by decide, fun h hh _ hmem ↦ absurd (start_queue threeWaiters hh ▸ hmem) List.not_mem_nil⟩, trivial,
      trivial, trivial, trivial, fun hlt ↦ absurd hlt (by decide), trivial, trivial, trivial⟩

/-- Thread 1 holds the mutex and waits for the semaphore behind thread 3 when thread 2,
which is more urgent than both, waits for the mutex. -/
def raisedWaiter : List Op :=
  [.startup 3, .schedule, .wait (.sem 0) 0xFFFFFFFF, .schedule, .startup 2, .schedule, .sleep,
    .schedule, .wait (.sem 0) 0xFFFFFFFF, .schedule, .timeout 2, .inherit 1,
    .wait (.mutex 0) 0xFFFFFFFF]

def raisedWaiterInputs : List Input :=
  [.call (.mutexTake 0 0xFFFFFFFF), .call (.startup 3), .go, .call (.semTake 0 0xFFFFFFFF), .go, .go,
    .call (.startup 2), .go, .call .sleep, .go, .go, .call (.semTake 0 0xFFFFFFFF), .go, .timeout 2,
    .go, .call (.mutexTake 0 0xFFFFFFFF)]

theorem not_ordered :
    ¬Ordered (flagOf threeWaiters)
        (raisedWaiter.foldl (step (flagOf threeWaiters)) (start threeWaiters)) ∧
      (raisedWaiterInputs.foldl Interleaving.step (boot threeWaiters)).sched.queue (.sem 0) = [3, 1] ∧
      (raisedWaiterInputs.foldl Interleaving.step (boot threeWaiters)).sched.currentPriority 1 <
        (raisedWaiterInputs.foldl Interleaving.step (boot threeWaiters)).sched.currentPriority 3 := by
  refine ⟨fun h ↦ ?_, by decide +kernel, by decide +kernel⟩
  exact absurd (h.first (.sem 0) rfl rfl 3 (by decide +kernel) 1 (by decide +kernel)) (by decide +kernel)

end GiantGecko.Rtos.WaitOrder
