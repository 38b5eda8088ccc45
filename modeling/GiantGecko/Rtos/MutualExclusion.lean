import GiantGecko.Foundation.Transition
import GiantGecko.Rtos.MutexMoves

namespace GiantGecko.Rtos.MutualExclusion

open Foundation Foundation.Intrusive Foundation.Transition Scheduler Ipc Interleaving Outcome MutexMoves

def Enabled (self : ℕ) (v : View) : Move → Prop
  | .take m => 0 < (v.mutex m).value
  | .again m => (v.mutex m).owner = some self
  | .wait m => (v.mutex m).value = 0
  | .giveBack m => (v.mutex m).owner = some self ∧ ((v.mutex m).unheld self).hold ≠ 0
  | .release m => (v.mutex m).owner = some self ∧ ((v.mutex m).unheld self).hold = 0
  | .leave _ => True

def SoundMutex (x : Mutex) (l : List ℕ) : Prop :=
  x.value = 1 ∧ x.owner = none ∧ x.hold = 0 ∧ l = [] ∨ x.value = 0 ∧ ∃ o, x.owner = some o

/-- The owner and nobody else has takes to give back, and `hold` counts them. -/
def CountedMutex (x : Mutex) : Prop :=
  ∀ t, (x.owner = some t → 0 < x.depth t ∧ x.hold = x.depth t % 2 ^ 8) ∧
    (x.owner ≠ some t → x.depth t = 0)

def Sound (v : View) : Prop := ∀ m, SoundMutex (v.mutex m) (v.waiters m)

def Counted (v : View) : Prop := ∀ m, CountedMutex (v.mutex m)

variable {k : Kernel} {e : Input} {v : View} {self m t : ℕ} {o : Move}

theorem takeMove_enabled {time : BitVec 32} (h : takeMove m time k = some o) :
    Enabled self (view k) o := by
  rw [takeMove] at h
  split_ifs at h with hvalue
  · cases h
    exact hvalue
  · cases h
    exact Nat.eq_zero_of_not_pos hvalue

theorem callMove_enabled {c : Call} (h : callMove c k = some o) :
    Enabled (rtThreadSelf k) (view k) o := by
  cases c with
  | mutexTake m time =>
    rw [callMove] at h
    split_ifs at h with howner
    · cases h
      exact howner
    · exact takeMove_enabled h
  | mutexRelease m =>
    rw [callMove] at h
    split_ifs at h with howner hhold
    · cases h
      exact ⟨not_not.mp howner, hhold⟩
    · cases h
      exact ⟨not_not.mp howner, hhold⟩
  | _ => cases h

theorem move_enabled (h : move k e = some o) : Enabled (rtThreadSelf k) (view k) o := by
  cases e with
  | call c =>
    rw [move] at h
    cases hpc : k.pc (rtThreadSelf k) with
    | user =>
      simp only [hpc] at h
      split_ifs at h
      exact callMove_enabled h
    | _ => simp [hpc] at h
  | go =>
    rw [move] at h
    cases hpc : k.pc (rtThreadSelf k) with
    | resumed c =>
      simp only [hpc] at h
      cases c with
      | mutexTake n time =>
        rw [contMove] at h
        split_ifs at h
        exact takeMove_enabled h
      | _ => cases h
    | _ => simp [hpc] at h
  | timeout t =>
    rw [move] at h
    split_ifs at h
    cases h
    trivial
  | tick => cases h

theorem SoundMutex.owned {x : Mutex} {l : List ℕ} (h : SoundMutex x l) (ho : x.owner = some t) :
    x.value = 0 := by
  obtain ⟨-, hnone, -⟩ | ⟨hvalue, -⟩ := h
  · simp [ho] at hnone
  · exact hvalue

theorem SoundMutex.free {x : Mutex} {l : List ℕ} (h : SoundMutex x l) (hvalue : 0 < x.value) :
    x.value = 1 ∧ x.owner = none ∧ x.hold = 0 ∧ l = [] := by
  obtain h | ⟨hzero, -⟩ := h
  · exact h
  · omega

theorem SoundMutex.unlink {x : Mutex} {q : ℕ → List ℕ} (h : SoundMutex x (q m)) (t : ℕ) :
    SoundMutex x (unlink t q m) :=
  h.imp_left fun ⟨hvalue, howner, hhold, hq⟩ ↦ ⟨hvalue, howner, hhold, by simp [Intrusive.unlink, hq]⟩

theorem forall_update {P : ℕ → Mutex → Prop} {f : ℕ → Mutex} {x : Mutex}
    (h : ∀ n ≠ m, P n (f n)) (hx : P m x) (n : ℕ) : P n (Function.update f m x n) := by
  obtain rfl | hn := eq_or_ne n m
  · rwa [Function.update_self]
  · rw [Function.update_of_ne hn]
    exact h n hn

theorem sound_act (hv : Sound v) (ho : Enabled self v o) : Sound (act self v o) := by
  cases o with
  | take m =>
    have hone := ((hv m).free ho).1
    exact forall_update (P := fun n x ↦ SoundMutex x (v.waiters n)) (fun n _ ↦ hv n)
      (.inr ⟨by simp [Mutex.giveTo, Mutex.held, hone], self, rfl⟩)
  | again m =>
    exact forall_update (P := fun n x ↦ SoundMutex x (v.waiters n)) (fun n _ ↦ hv n)
      (.inr ⟨(hv m).owned ho, self, ho⟩)
  | giveBack m =>
    exact forall_update (P := fun n x ↦ SoundMutex x (v.waiters n)) (fun n _ ↦ hv n)
      (.inr ⟨(hv m).owned ho.1, self, ho.1⟩)
  | wait m =>
    intro n
    simp only [act]
    obtain rfl | hn := eq_or_ne n m
    · refine .inr ((hv n).resolve_left ?_)
      rintro ⟨hone, -⟩
      simp [Enabled, hone] at ho
    · rw [Function.update_of_ne hn]
      exact hv n
  | leave t => exact fun n ↦ (hv n).unlink t
  | release m =>
    have hzero := (hv m).owned ho.1
    simp only [act]
    cases hl : v.waiters m with
    | nil =>
      refine forall_update (P := fun n x ↦ SoundMutex x (v.waiters n)) (fun n _ ↦ hv n) (.inl ?_)
      exact ⟨by simp [Mutex.freed, Mutex.unheld, hzero], rfl, ho.2, hl⟩
    | cons w l =>
      exact forall_update (P := fun n x ↦ SoundMutex x (unlink w v.waiters n))
        (fun n _ ↦ (hv n).unlink w) (.inr ⟨hzero, w, rfl⟩)

theorem CountedMutex.held {x : Mutex} (hx : CountedMutex x) (ho : x.owner = some self) :
    CountedMutex (x.held self) := by
  intro t
  obtain rfl | ht := eq_or_ne t self
  · obtain ⟨-, hhold⟩ := (hx t).1 ho
    refine ⟨fun _ ↦ ?_, fun hne ↦ absurd ho hne⟩
    simp only [Mutex.held, Function.update_self, hhold]
    omega
  · refine ⟨fun hother ↦ absurd (Option.some.inj (hother.symm.trans ho)) ht, ?_⟩
    simpa only [Mutex.held, Function.update_of_ne ht] using (hx t).2

theorem CountedMutex.unheld {x : Mutex} (hx : CountedMutex x) (ho : x.owner = some self)
    (hhold : (x.unheld self).hold ≠ 0) : CountedMutex (x.unheld self) := by
  intro t
  obtain rfl | ht := eq_or_ne t self
  · obtain ⟨hpos, hcount⟩ := (hx t).1 ho
    refine ⟨fun _ ↦ ?_, fun hne ↦ absurd ho hne⟩
    simp only [Mutex.unheld, hcount] at hhold
    simp only [Mutex.unheld, Function.update_self, hcount]
    omega
  · refine ⟨fun hother ↦ absurd (Option.some.inj (hother.symm.trans ho)) ht, ?_⟩
    simpa only [Mutex.unheld, Function.update_of_ne ht] using (hx t).2

theorem counted_giveTo {x : Mutex} (hdepth : ∀ t, x.depth t = 0) (hhold : x.hold = 0)
    (self p : ℕ) : CountedMutex (x.giveTo self p) := by
  intro t
  obtain rfl | ht := eq_or_ne t self
  · refine ⟨fun _ ↦ ?_, fun hne ↦ absurd rfl hne⟩
    simp [Mutex.giveTo, Mutex.held, hdepth, hhold]
  · refine ⟨fun hother ↦ absurd (Option.some.inj hother).symm ht, fun _ ↦ ?_⟩
    simp [Mutex.giveTo, Mutex.held, ht, hdepth]

theorem CountedMutex.depth_unheld {x : Mutex} (hx : CountedMutex x) (ho : x.owner = some self)
    (honce : x.depth self = 1) (t : ℕ) : (x.unheld self).depth t = 0 := by
  obtain rfl | ht := eq_or_ne t self
  · simp [Mutex.unheld, honce]
  · simp only [Mutex.unheld, Function.update_of_ne ht]
    refine (hx t).2 ?_
    rw [ho]
    simpa using ht.symm

theorem counted_act (hv : Sound v) (hc : Counted v) (ho : Enabled self v o)
    (honce : ∀ m, o = .release m → (v.mutex m).depth self = 1) : Counted (act self v o) := by
  cases o with
  | take m =>
    obtain ⟨-, hnone, hhold, -⟩ := (hv m).free ho
    have hdepth (t : ℕ) : (v.mutex m).depth t = 0 := (hc m t).2 (by simp [hnone])
    refine forall_update (P := fun _ x ↦ CountedMutex x) (fun n _ ↦ hc n) ?_
    exact counted_giveTo (x := { v.mutex m with value := (v.mutex m).value - 1 }) hdepth hhold _ _
  | again m =>
    exact forall_update (P := fun _ x ↦ CountedMutex x) (fun n _ ↦ hc n) ((hc m).held ho)
  | giveBack m =>
    exact forall_update (P := fun _ x ↦ CountedMutex x) (fun n _ ↦ hc n) ((hc m).unheld ho.1 ho.2)
  | wait m => exact hc
  | leave t => exact hc
  | release m =>
    have hdepth := (hc m).depth_unheld ho.1 (honce m rfl)
    simp only [act]
    cases v.waiters m with
    | nil =>
      refine forall_update (P := fun _ x ↦ CountedMutex x) (fun n _ ↦ hc n) ?_
      exact fun t ↦ ⟨(fun hsome ↦ by cases hsome), fun _ ↦ hdepth t⟩
    | cons w l =>
      exact forall_update (P := fun _ x ↦ CountedMutex x) (fun n _ ↦ hc n)
        (counted_giveTo hdepth ho.2 w _)

/-- No two threads have takes of one mutex to give back; a value of one means that the
mutex is free; who has takes to give back is the owner, and the owner has some. -/
structure Exclusive (k : Kernel) : Prop where
  one : ∀ m t u, 0 < (k.mutex m).depth t → 0 < (k.mutex m).depth u → t = u
  free : ∀ m, (k.mutex m).value = 1 ↔
    (k.mutex m).owner = none ∧ (k.mutex m).hold = 0 ∧ k.sched.queue (.mutex m) = []
  keeps : ∀ m t, 0 < (k.mutex m).depth t ↔ (k.mutex m).owner = some t

def Refuses (k : Kernel) (e : Input) : Prop :=
  ∀ m, e = .call (.mutexRelease m) → k.pc (rtThreadSelf k) = .user →
    rtThreadSelf k ≠ idleThread → (k.mutex m).owner ≠ some (rtThreadSelf k) →
    (step k e).result (rtThreadSelf k) = .error ∧ (step k e).mutex = k.mutex ∧
      (step k e).sched.queue = k.sched.queue

def Excludes (k : Kernel) (e : Input) : Prop := Exclusive (step k e) ∧ Refuses k e

/-- The release that brings `hold` to zero gives back the only take there is. -/
def ReleasesLast (k : Kernel) (e : Input) : Prop :=
  ∀ m, move k e = some (.release m) → (k.mutex m).depth (rtThreadSelf k) = 1

structure Orderly (k : Kernel) : Prop where
  inv : Inv k
  sound : Sound (view k)
  counted : Counted (view k)

theorem Orderly.exclusive (hk : Orderly k) : Exclusive k := by
  have hkeeps (m t : ℕ) : 0 < (k.mutex m).depth t ↔ (k.mutex m).owner = some t := by
    refine ⟨fun hpos ↦ ?_, fun ho ↦ ((hk.counted m t).1 ho).1⟩
    by_contra hne
    have hzero := (hk.counted m t).2 hne
    simp only [view] at hzero
    omega
  refine ⟨?_, ?_, hkeeps⟩
  · intro m t u ht hu
    rw [hkeeps] at ht hu
    exact Option.some.inj (ht.symm.trans hu)
  · intro m
    constructor
    · intro hone
      obtain ⟨-, hfree⟩ := (hk.sound m).free (by simp [view, hone])
      exact hfree
    · rintro ⟨hnone, -⟩
      obtain ⟨hone, -⟩ | ⟨-, o, ho⟩ := hk.sound m
      · exact hone
      · simp [view, hnone] at ho

theorem refuses (k : Kernel) (e : Input) : Refuses k e := by
  rintro m rfl hpc hidle howner
  simp only [step, hpc, if_neg hidle, invoke, rtMutexRelease, if_pos howner]
  exact ⟨Function.update_self _ _ _, rfl, rfl⟩

theorem orderly_step (hk : Orderly k) (hC : ReleasesLast k e) : Orderly (step k e) := by
  have hview := view_step hk.inv e
  refine ⟨inv_step hk.inv e, ?_, ?_⟩
  · rw [hview]
    cases hmove : move k e with
    | none => exact hk.sound
    | some o => exact sound_act hk.sound (move_enabled hmove)
  · rw [hview]
    cases hmove : move k e with
    | none => exact hk.counted
    | some o =>
      refine counted_act hk.sound hk.counted (move_enabled hmove) ?_
      rintro m rfl
      exact hC m hmove

theorem released (hself : self ∉ v.waiters m) :
    ((act self v (.release m)).mutex m).owner ≠ some self ∧
      ((act self v (.release m)).mutex m).depth self = (v.mutex m).depth self - 1 := by
  simp only [act]
  cases hl : v.waiters m with
  | nil => simp [Mutex.freed, Mutex.unheld]
  | cons w l =>
    have hw : self ≠ w := by
      rintro rfl
      simp [hl] at hself
    simp [Mutex.giveTo, Mutex.held, Mutex.unheld, hw, hw.symm]

theorem excludes_iff_releasesLast (hk : Orderly k) (e : Input) : Excludes k e ↔ ReleasesLast k e := by
  refine ⟨?_, fun hC ↦ ⟨(orderly_step hk hC).exclusive, refuses k e⟩⟩
  rintro ⟨hexclusive, -⟩ m hmove
  obtain ⟨hact, -⟩ := makes_of_release hk.inv hmove
  have hpos := ((hk.counted m _).1 (move_enabled hmove).1).1
  have hself : rtThreadSelf k ∉ (view k).waiters m := by
    intro hmem
    have hsuspend := hk.inv.valid.waiting (.mutex m) _ rfl hmem
    simp [hact.running] at hsuspend
  obtain ⟨howner, hdepth⟩ := released hself
  have hmutex : (step k e).mutex = (act (rtThreadSelf k) (view k) (.release m)).mutex := by
    have hview := congrArg View.mutex (view_step hk.inv e)
    rwa [hmove] at hview
  rw [← hmutex] at howner hdepth
  have hkept : ¬0 < ((step k e).mutex m).depth (rtThreadSelf k) := by
    rw [hexclusive.keeps]
    exact howner
  simp only [view] at hpos hdepth
  omega

theorem orderly_boot (c : Setup) : Orderly (boot c) where
  inv := inv_boot c
  sound _ := .inl ⟨rfl, rfl, rfl, rfl⟩
  counted _ _ := ⟨(fun h ↦ by cases h), fun _ ↦ rfl⟩

/-- In every run a mutex has one owner at most, who keeps it until it has given back
each take, if and only if every release that brings `hold` to zero gives back an only
take. -/
theorem excludes_iff (c : Setup) (es : List Input) :
    Along step Excludes (boot c) es ↔ Along step ReleasesLast (boot c) es :=
  along_congr (fun _ _ hk hC ↦ orderly_step hk hC) (fun _ e hk ↦ excludes_iff_releasesLast hk e)
    (orderly_boot c) es

structure Deep (n : ℕ) (k : Kernel) : Prop where
  self : rtThreadSelf k = mainThread
  pc : k.pc mainThread = .user
  owner : (k.mutex 0).owner = some mainThread
  hold : (k.mutex 0).hold = n % 2 ^ 8
  depth : (k.mutex 0).depth mainThread = n
  priority : (k.mutex 0).originalPriority = k.sched.currentPriority mainThread
  unawaited : k.sched.queue (.mutex 0) = []

theorem main_ne_idle : mainThread ≠ idleThread := by decide

theorem Deep.take {n : ℕ} (h : Deep n k) : Deep (n + 1) (step k (.call (.mutexTake 0 0))) := by
  have hstep : step k (.call (.mutexTake 0 0)) =
      finish .eok (setMutex 0 ((k.mutex 0).held mainThread) (setSelfError .eok k)) := by
    simp [step, invoke, rtMutexTake_eq, h.self, h.pc, h.owner, main_ne_idle]
  rw [hstep]
  refine ⟨h.self, ?_, ?_, ?_, ?_, ?_, h.unawaited⟩
  · rw [← h.self]
    exact Function.update_self _ _ _
  · simp [finish, setMutex, Mutex.held, h.owner]
  · simp only [finish, setMutex, Function.update_self, Mutex.held, h.hold]
    omega
  · simp [finish, setMutex, Mutex.held, h.depth]
  · simp only [finish, setMutex, Function.update_self]
    exact h.priority

theorem deep_replicate (c : Setup) (n : ℕ) :
    Deep (n + 1) ((List.replicate (n + 1) (.call (.mutexTake 0 0))).foldl step (boot c)) := by
  induction n with
  | zero => exact ⟨rfl, rfl, rfl, rfl, rfl, rfl, rfl⟩
  | succ n ih =>
    rw [List.replicate_succ', List.foldl_append]
    exact ih.take

def tooDeep : List Input := List.replicate (256 + 1) (.call (.mutexTake 0 0))

theorem deep_tooDeep : Deep 257 (tooDeep.foldl step (boot threeThreads)) :=
  deep_replicate threeThreads 256

/-- After 257 takes a single release frees the mutex. -/
theorem Deep.released (h : Deep 257 k) :
    ((step k (.call (.mutexRelease 0))).mutex 0).owner = none ∧
      ((step k (.call (.mutexRelease 0))).mutex 0).depth mainThread = 256 := by
  have hrestore (x : Mutex) (hx : x.originalPriority = (k.mutex 0).originalPriority) :
      restore 0 (setMutex 0 x k) = setMutex 0 x k := by
    rw [restore, if_neg]
    simp [setMutex, hx, h.priority, rtThreadSelf, ← h.self]
  have hstep : step k (.call (.mutexRelease 0)) =
      passOn 0 (setMutex 0 ((k.mutex 0).unheld mainThread) k) := by
    rw [← hrestore]
    · simp [step, invoke, rtMutexRelease_eq, h.self, h.pc, h.owner, main_ne_idle, Mutex.unheld,
        h.hold]
    · rfl
  rw [hstep, passOn]
  simp [setMutex, h.unawaited, finish, Mutex.unheld, h.depth]

theorem not_excludes :
    ¬Along step Excludes (boot threeThreads) (tooDeep ++ [.call (.mutexRelease 0)]) := by
  intro h
  rw [along_append] at h
  obtain ⟨howner, hdepth⟩ := deep_tooDeep.released
  have hkeeps := (h.2.1.1.keeps 0 mainThread).mp (lt_of_lt_of_eq (by decide) hdepth.symm)
  cases howner.symm.trans hkeeps

end GiantGecko.Rtos.MutualExclusion
