import GiantGecko.Rtos.Schedule
import GiantGecko.Rtos.Interleaving

namespace GiantGecko.Rtos.Outcome

open Foundation.Intrusive Scheduler Ipc Interleaving

/-- The scheduler's data stay in order, and priorities and mutex queues as they are. -/
structure Frame (s s' : Sched) : Prop where
  valid : Valid s'
  self : s'.currentThread = s.currentThread
  currentPriority : s'.currentPriority = s.currentPriority
  initPriority : s'.initPriority = s.initPriority
  started : ∀ t, s.stat t ≠ .init → s'.stat t ≠ .init
  waiters : ∀ m, s'.queue (.mutex m) = s.queue (.mutex m)

variable {s s' s'' : Sched} {t m : ℕ} {h : Head}

theorem Frame.refl (hs : Valid s) : Frame s s := ⟨hs, rfl, rfl, rfl, fun _ ht ↦ ht, fun _ ↦ rfl⟩

theorem Frame.trans (h : Frame s s') (h' : Frame s' s'') : Frame s s'' where
  valid := h'.valid
  self := h'.self.trans h.self
  currentPriority := h'.currentPriority.trans h.currentPriority
  initPriority := h'.initPriority.trans h.initPriority
  started t ht := h'.started t (h.started t ht)
  waiters m := (h'.waiters m).trans (h.waiters m)

theorem frame_setError (hs : Valid s) (e : Err) : Frame s (setError t e s) :=
  ⟨hs.setError e, rfl, rfl, rfl, fun _ ht ↦ ht, fun _ ↦ rfl⟩

theorem frame_resume (hs : Valid s) (ht : ∀ m, t ∉ s.queue (.mutex m)) :
    Frame s (rtThreadResume t s) := by
  refine ⟨hs.rtThreadResume, by simp, by simp, by simp, ?_, ?_⟩
  · intro u hu
    rw [rtThreadResume]
    split_ifs
    · rw [rtScheduleInsertThread_stat, Function.update_apply]
      split_ifs <;> simp_all
    · exact hu
  · intro m
    by_cases hsuspend : s.stat t = .suspend
    · rw [resume_queue rfl hsuspend, unlink_eq_self (ht m)]
    · rw [rtThreadResume, if_neg hsuspend]

def Other : Head → Prop
  | .ready _ => False
  | .mutex _ => False
  | _ => True

theorem Other.waits (hh : Other h) : h.waits := by
  cases h <;> first | rfl | exact hh.elim

theorem Other.ne_mutex (hh : Other h) : h ≠ .mutex m := by
  rintro rfl
  exact hh

theorem frame_resumeFirst (hs : Valid s) (hh : Other h) : Frame s (rtIpcListResume h s) := by
  rw [rtIpcListResume]
  cases hq : s.queue h with
  | nil => exact Frame.refl hs
  | cons t l =>
    refine frame_resume hs fun m hm ↦ hh.ne_mutex (hs.linked.one h (.mutex m) t ?_ hm)
    rw [hq]
    exact List.mem_cons_self

theorem frame_block (hs : Valid s) (hrunning : s.stat s.currentThread = .running)
    (hidle : s.currentThread ≠ 0) (hh : Other h) {flag : IpcFlag} {time : BitVec 32} :
    Frame s (startThreadTimer s.currentThread time (rtIpcListSuspend h s.currentThread flag s)) := by
  refine ⟨hs.block hrunning hidle hh.waits _ _, ?_, ?_, ?_, ?_, ?_⟩
  all_goals rw [hs.block_eq hrunning _ _]
  · intro u hu
    simp only [Function.update_apply]
    split_ifs
    · simp
    · exact hu
  · exact fun m ↦ Function.update_of_ne hh.ne_mutex.symm _ _

theorem frame_sleep (hs : Valid s) (hrunning : s.stat s.currentThread = .running)
    (hidle : s.currentThread ≠ 0) :
    Frame s
      { rtThreadSuspend s.currentThread s with
        threadTimer := Function.update (rtThreadSuspend s.currentThread s).threadTimer
          s.currentThread true } := by
  refine ⟨hs.sleep hrunning hidle, ?_, ?_, ?_, ?_, ?_⟩
  all_goals rw [hs.suspend_eq hrunning]
  · intro u hu
    simp only [Function.update_apply]
    split_ifs
    · simp
    · exact hu
  · exact fun m ↦ rfl

/-- Only what a call stores in its objects has changed. -/
structure Stored (k k' : Kernel) : Prop where
  frame : Frame k.sched k'.sched
  stat : k'.sched.stat = k.sched.stat
  mutex : k'.mutex = k.mutex
  pc : k'.pc = k.pc

/-- What a call that has to do with no mutex leaves. -/
structure Plain (k k' : Kernel) : Prop where
  frame : Frame k.sched k'.sched
  mutex : k'.mutex = k.mutex
  pc : ∀ t ≠ rtThreadSelf k, k'.pc t = k.pc t
  schedules : (∃ c, k'.pc (rtThreadSelf k) = .schedule c) ∨ k'.sched.stat = k.sched.stat

variable {k k' k'' : Kernel} {c : Cont}

theorem Stored.of_sched (hk : Valid k.sched) (hs : k'.sched = k.sched) (hm : k'.mutex = k.mutex)
    (hp : k'.pc = k.pc) : Stored k k' :=
  ⟨by rw [hs]; exact Frame.refl hk, by rw [hs], hm, hp⟩

theorem stored_setSelfError (hk : Valid k.sched) (e : Err) : Stored k (setSelfError e k) :=
  ⟨frame_setError hk e, rfl, rfl, rfl⟩

theorem Stored.trans (h : Stored k k') (h' : Stored k' k'') : Stored k k'' where
  frame := h.frame.trans h'.frame
  stat := h'.stat.trans h.stat
  mutex := h'.mutex.trans h.mutex
  pc := h'.pc.trans h.pc

theorem Stored.then (h : Stored k k') (h' : Plain k' k'') : Plain k k'' where
  frame := h.frame.trans h'.frame
  mutex := h'.mutex.trans h.mutex
  pc t ht := by
    rw [h'.pc t (by rwa [rtThreadSelf, h.frame.self]), h.pc]
  schedules := by
    have hplain := h'.schedules
    rwa [rtThreadSelf, h.frame.self, h.stat] at hplain

theorem Stored.plain (h : Stored k k') : Plain k k' :=
  ⟨h.frame, h.mutex, fun t _ ↦ congrFun h.pc t, .inr h.stat⟩

theorem plain_refl (hk : Valid k.sched) : Plain k k := (Stored.of_sched hk rfl rfl rfl).plain

theorem plain_goTo (hk : Valid k.sched) (pc : Pc) : Plain k (goTo pc k) :=
  ⟨Frame.refl hk, rfl, fun _ ht ↦ Function.update_of_ne ht _ _, .inr rfl⟩

theorem plain_finish (hk : Valid k.sched) (e : Err) : Plain k (finish e k) :=
  ⟨Frame.refl hk, rfl, fun _ ht ↦ Function.update_of_ne ht _ _, .inr rfl⟩

theorem plain_thenSchedule {f : Sched → Sched} (hf : Frame k.sched (f k.sched)) :
    Plain k (thenSchedule c (onSched f k)) := by
  have hself : rtThreadSelf (onSched f k) = rtThreadSelf k := hf.self
  refine ⟨hf, rfl, ?_, .inl ⟨c, ?_⟩⟩
  · intro t ht
    exact Function.update_of_ne (hself ▸ ht) _ _
  · rw [thenSchedule, hself]
    exact Function.update_self _ _ _

structure Running (k : Kernel) : Prop where
  valid : Valid k.sched
  running : k.sched.stat (rtThreadSelf k) = .running
  not_idle : rtThreadSelf k ≠ idleThread

theorem Running.stored (hk : Running k) (h : Stored k k') : Running k' where
  valid := h.frame.valid
  running := by
    rw [rtThreadSelf, h.frame.self, h.stat]
    exact hk.running
  not_idle := by
    rw [rtThreadSelf, h.frame.self]
    exact hk.not_idle

theorem Stored.finish (h : Stored k k') (e : Err) : Plain k (Ipc.finish e k') :=
  h.then (plain_finish h.frame.valid e)

theorem Stored.goTo (h : Stored k k') (pc : Pc) : Plain k (Ipc.goTo pc k') :=
  h.then (plain_goTo h.frame.valid pc)

theorem Stored.waitOn (h' : Stored k k') (hk : Running k) (hh : Other h) {flag : IpcFlag}
    {time : BitVec 32} : Plain k (Ipc.waitOn h flag time c k') := by
  have hk' := hk.stored h'
  exact h'.then (plain_thenSchedule (frame_block hk'.valid hk'.running hk'.not_idle hh))

theorem Stored.resumeFirst (h' : Stored k k') (hh : Other h) : Plain k (Ipc.resumeFirst h k') := by
  rw [Ipc.resumeFirst]
  split_ifs
  · exact h'.finish .eok
  · exact h'.then (plain_thenSchedule (frame_resumeFirst h'.frame.valid hh))

section Stores

variable (hk : Valid k.sched) {i u : ℕ}
include hk

theorem stored_refl : Stored k k := .of_sched hk rfl rfl rfl

theorem stored_setSem {x : Semaphore} : Stored k (setSem i x k) := .of_sched hk rfl rfl rfl

theorem stored_setEvent (set : BitVec 32) : Stored k (setEvent i set k) := .of_sched hk rfl rfl rfl

theorem stored_setEventSet {set : BitVec 32} : Stored k (setEventSet u set k) :=
  .of_sched hk rfl rfl rfl

theorem stored_setRecved (value : BitVec 32) : Stored k (setRecved value k) :=
  .of_sched hk rfl rfl rfl

theorem stored_setMb {x : Mailbox} : Stored k (setMb i x k) := .of_sched hk rfl rfl rfl

theorem stored_setMq {x : MessageQueue} : Stored k (setMq i x k) := .of_sched hk rfl rfl rfl

end Stores

theorem rtSemTake_plain (hk : Running k) (i : ℕ) (time : BitVec 32) :
    Plain k (rtSemTake i time k) := by
  rw [rtSemTake]
  split_ifs
  · exact (stored_setSem hk.valid).finish .eok
  · exact (stored_refl hk.valid).finish .etimeout
  · exact (stored_setSelfError hk.valid .eok).waitOn hk (by trivial)

theorem rtSemRelease_plain (hk : Running k) (i : ℕ) : Plain k (rtSemRelease i k) := by
  rw [rtSemRelease]
  split_ifs
  · exact (stored_setSem hk.valid).finish .eok
  · exact plain_thenSchedule (frame_resumeFirst hk.valid trivial)

theorem mbSendLoop_plain (hk : Running k) (i : ℕ) (value timeout tickDelta : BitVec 32) :
    Plain k (mbSendLoop i value timeout tickDelta k) := by
  simp only [mbSendLoop]
  split
  · split
    · exact (stored_setSelfError hk.valid .eok).finish .efull
    · exact (stored_setSelfError hk.valid .eok).waitOn hk (by trivial)
  · exact (stored_setMb hk.valid).resumeFirst (by trivial)

theorem rtMbSendWait_plain (hk : Running k) (i : ℕ) (value timeout : BitVec 32) :
    Plain k (rtMbSendWait i value timeout k) := by
  rw [rtMbSendWait]
  split_ifs
  · exact (stored_refl hk.valid).finish .efull
  · exact mbSendLoop_plain hk i value timeout 0

theorem mbRecvLoop_plain (hk : Running k) (i : ℕ) (timeout tickDelta : BitVec 32) :
    Plain k (mbRecvLoop i timeout tickDelta k) := by
  have hreset := stored_setSelfError hk.valid .eok
  simp only [mbRecvLoop]
  split
  · split
    · exact (hreset.trans (stored_setSelfError hreset.frame.valid .etimeout)).finish .etimeout
    · exact hreset.waitOn hk (by trivial)
  · have hrecved := stored_setRecved hk.valid ((k.mb i).msgPool (k.mb i).outOffset)
    exact (hrecved.trans (stored_setMb hrecved.frame.valid)).resumeFirst (by trivial)

theorem rtMbRecv_plain (hk : Running k) (i : ℕ) (timeout : BitVec 32) :
    Plain k (rtMbRecv i timeout k) := by
  rw [rtMbRecv]
  split_ifs
  · exact (stored_refl hk.valid).finish .etimeout
  · exact mbRecvLoop_plain hk i timeout 0

theorem rtMqSend_plain (hk : Running k) (urgent : Bool) (i : ℕ) (buffer : List UInt8) :
    Plain k (rtMqSend urgent i buffer k) := by
  rw [rtMqSend]
  split_ifs
  · exact (stored_refl hk.valid).plain
  · exact (stored_refl hk.valid).finish .error
  · cases (k.mq i).free with
    | none => exact (stored_refl hk.valid).finish .efull
    | some slot => exact (stored_setMq hk.valid).goTo _

theorem mqLink_plain (hk : Running k) (urgent : Bool) (i slot : ℕ) (buffer : List UInt8) :
    Plain k (mqLink urgent i slot buffer k) :=
  (stored_setMq hk.valid).resumeFirst (by trivial)

theorem mqRecvLoop_plain (hk : Running k) (i size : ℕ) (timeout tickDelta : BitVec 32) :
    Plain k (mqRecvLoop i size timeout tickDelta k) := by
  have hreset := stored_setSelfError hk.valid .eok
  simp only [mqRecvLoop]
  split
  · split
    · exact (hreset.trans (stored_setSelfError hreset.frame.valid .etimeout)).finish .etimeout
    · exact hreset.waitOn hk (by trivial)
  · cases (k.mq i).head with
    | none => exact (stored_refl hk.valid).plain
    | some slot => exact (stored_setMq hk.valid).goTo _

theorem rtMqRecv_plain (hk : Running k) (i size : ℕ) (timeout : BitVec 32) :
    Plain k (rtMqRecv i size timeout k) := by
  rw [rtMqRecv]
  split_ifs
  · exact (stored_refl hk.valid).plain
  · exact (stored_refl hk.valid).finish .etimeout
  · exact mqRecvLoop_plain hk i size timeout 0

theorem mqFree_plain (hk : Running k) (i slot size : ℕ) : Plain k (mqFree i slot size k) := by
  have hcopied : Stored k
      { k with
        buffer := Function.update k.buffer (rtThreadSelf k)
          (((k.mq i).data slot).take
            (if size > (k.mq i).msgSize then (k.mq i).msgSize else size)) } :=
    .of_sched hk.valid rfl rfl rfl
  exact (hcopied.trans (stored_setMq hcopied.frame.valid)).finish .eok

theorem rtThreadSleep_plain (hk : Running k) : Plain k (rtThreadSleep k) :=
  plain_thenSchedule (frame_sleep hk.valid hk.running hk.not_idle)

structure Walked (k : Kernel) (r : Kernel × Bool) : Prop where
  frame : Frame k.sched r.1.sched
  mutex : r.1.mutex = k.mutex
  pc : r.1.pc = k.pc
  stat : r.2 = false → r.1.sched.stat = k.sched.stat

theorem Walked.grant {r : Kernel × Bool} {e : ℕ} (h : Walked k r) (hs : Stored r.1 k')
    (ht : ∀ m, t ∉ k.sched.queue (.mutex m)) : Walked k (grantEvent e t k', true) := by
  have hstored : Stored r.1
      (if (k'.eventInfo t).clear then setEvent e ((k'.event e).set &&& ~~~k'.eventSet t) k' else k') := by
    split_ifs
    · exact hs.trans (stored_setEvent hs.frame.valid _)
    · exact hs
  have hframe := h.frame.trans hstored.frame
  refine ⟨hframe.trans (frame_resume hframe.valid ?_), hstored.mutex.trans h.mutex,
    hstored.pc.trans h.pc, fun hfalse ↦ by cases hfalse⟩
  intro m
  rw [hframe.waiters]
  exact ht m

theorem Walked.turn {r : Kernel × Bool} {e : ℕ} (h : Walked k r)
    (ht : ∀ m, t ∉ k.sched.queue (.mutex m)) : Walked k (eventTurn e r t) := by
  rw [eventTurn]
  split_ifs
  · exact h.grant (stored_refl h.frame.valid) ht
  · exact h
  · exact h.grant (stored_setEventSet h.frame.valid) ht
  · exact h
  · exact h

theorem Walked.walk {r : Kernel × Bool} {e : ℕ} {l : List ℕ} (h : Walked k r)
    (hl : ∀ t ∈ l, ∀ m, t ∉ k.sched.queue (.mutex m)) : Walked k (l.foldl (eventTurn e) r) := by
  induction l generalizing r with
  | nil => exact h
  | cons t l ih =>
    refine ih (h.turn (hl t List.mem_cons_self)) ?_
    exact fun u hu ↦ hl u (List.mem_cons_of_mem t hu)

theorem Walked.plain {r : Kernel × Bool} (h : Walked k r) :
    Plain k (if r.2 then thenSchedule .done r.1 else Ipc.finish .eok r.1) := by
  have hself : rtThreadSelf r.1 = rtThreadSelf k := h.frame.self
  cases hr : r.2 with
  | true =>
    refine ⟨h.frame, h.mutex, ?_, .inl ⟨.done, ?_⟩⟩
    · intro t ht
      simp only [↓reduceIte, thenSchedule, hself, h.pc]
      exact Function.update_of_ne ht _ _
    · simp only [↓reduceIte, thenSchedule, hself]
      exact Function.update_self _ _ _
  | false => exact (Stored.mk h.frame (h.stat hr) h.mutex h.pc).finish .eok

theorem rtEventSend_plain (hk : Running k) (e : ℕ) (set : BitVec 32) :
    Plain k (rtEventSend e set k) := by
  rw [rtEventSend]
  split_ifs
  · exact (stored_refl hk.valid).finish .error
  · have hstored := stored_setEvent hk.valid (i := e) ((k.event e).set ||| set)
    have hstart : Walked k (setEvent e ((k.event e).set ||| set) k, false) :=
      ⟨hstored.frame, rfl, rfl, fun _ ↦ rfl⟩
    refine (hstart.walk ?_).plain
    intro t ht m hm
    cases hk.valid.linked.one _ _ t ht hm

theorem rtEventRecv_plain (hk : Running k) (e : ℕ) (set : BitVec 32) (option : EventOption)
    (timeout : BitVec 32) : Plain k (rtEventRecv e set option timeout k) := by
  have hreset := stored_setSelfError hk.valid .eok
  simp only [rtEventRecv]
  split
  · exact (stored_refl hk.valid).finish .error
  · split
    · split
      · have hrecved := hreset.trans
          (stored_setRecved hreset.frame.valid ((k.event e).set &&& set))
        split
        · exact (hrecved.trans (stored_setEvent hrecved.frame.valid _)).finish .eok
        · exact hrecved.finish .eok
      · split
        · exact (hreset.trans (stored_setSelfError hreset.frame.valid .etimeout)).finish .etimeout
        · refine Stored.waitOn (hreset.trans ?_) hk (by trivial)
          exact .of_sched hreset.frame.valid rfl rfl rfl
    · exact (stored_refl hk.valid).plain

end GiantGecko.Rtos.Outcome
