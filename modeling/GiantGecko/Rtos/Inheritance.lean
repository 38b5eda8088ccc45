import Mathlib.Order.Bounds.Basic
import GiantGecko.Rtos.MutualExclusion

namespace GiantGecko.Rtos.Inheritance

open Foundation.Intrusive Foundation.Transition Scheduler Ipc Interleaving Outcome MutexMoves
  MutualExclusion

/-- The priorities that a thread is to have at least: its own and those of the threads
that wait for what it holds. -/
def due (v : View) (t : ℕ) : Set ℕ :=
  { p | p = v.initPriority t ∨
    ∃ m w, (v.mutex m).owner = some t ∧ w ∈ v.waiters m ∧ p = v.priority w }

/-- Every thread is as urgent as it is to be, and no more. -/
def Law (v : View) : Prop := ∀ t, IsLeast (due v t) (v.priority t)

def dueWithout (v : View) (m t : ℕ) : Set ℕ :=
  { p | p = v.initPriority t ∨
    ∃ n w, n ≠ m ∧ (v.mutex n).owner = some t ∧ w ∈ v.waiters n ∧ p = v.priority w }

/-- A thread that is to wait for a less urgent owner finds whoever this owner waits for
as urgent as itself; the priority saved with a mutex that is given back is the one that
is still due to the thread, and the first waiter is as urgent as the others; a priority
is not owed to the waiter that gives up alone. -/
def Fits (self : ℕ) (v : View) : Move → Prop
  | .take _ => True
  | .again _ => True
  | .giveBack _ => True
  | .wait m => ∀ o, (v.mutex m).owner = some o → v.priority self < v.priority o →
      ∀ n u, o ∈ v.waiters n → (v.mutex n).owner = some u → u ≠ o →
        v.priority u ≤ v.priority self
  | .release m => IsLeast (dueWithout v m self) (v.mutex m).originalPriority ∧
      ∀ w l, v.waiters m = w :: l → ∀ u ∈ l, v.priority w ≤ v.priority u
  | .leave t => ∀ m o, t ∈ v.waiters m → (v.mutex m).owner = some o →
      v.priority o = v.initPriority o ∨
        ∃ n w, (v.mutex n).owner = some o ∧ w ∈ v.waiters n ∧ w ≠ t ∧ v.priority o = v.priority w

variable {k : Kernel} {e : Input} {v v' : View} {self m t w : ℕ} {o : Move}

theorem due_congr (hinit : v'.initPriority t = v.initPriority t)
    (hpriority : ∀ m, ∀ w ∈ v.waiters m, v'.priority w = v.priority w)
    (hwaits : ∀ m w, (v'.mutex m).owner = some t ∧ w ∈ v'.waiters m ↔
      (v.mutex m).owner = some t ∧ w ∈ v.waiters m) : due v' t = due v t := by
  ext p
  simp only [due, Set.mem_ofPred_eq, hinit]
  refine or_congr_right (exists_congr fun m ↦ exists_congr fun w ↦ ?_)
  rw [← and_assoc, hwaits, and_assoc]
  refine and_congr_right fun _ ↦ and_congr_right fun hw ↦ ?_
  rw [hpriority m w hw]

theorem law_congr (hinit : v'.initPriority = v.initPriority) (hpriority : v'.priority = v.priority)
    (hwaits : ∀ t m w, (v'.mutex m).owner = some t ∧ w ∈ v'.waiters m ↔
      (v.mutex m).owner = some t ∧ w ∈ v.waiters m) : Law v' ↔ Law v := by
  refine forall_congr' fun t ↦ ?_
  rw [due_congr (congrFun hinit t) (fun _ w _ ↦ congrFun hpriority w) (hwaits t), hpriority]

/-- Every waiter is in one list, once, and the thread that acts is in none. -/
structure Apart (t : ℕ) (v : View) : Prop where
  linked : Linked v.waiters
  unlinked : ∀ m, t ∉ v.waiters m

theorem law_take (hv : Sound v) (ho : Enabled self v (.take m)) :
    Law (act self v (.take m)) ↔ Law v := by
  obtain ⟨-, hnone, -, hnil⟩ := (hv m).free ho
  refine law_congr rfl rfl ?_
  intro t n w
  simp only [act]
  obtain rfl | hn := eq_or_ne n m
  · simp [hnil]
  · rw [Function.update_of_ne hn]

theorem law_setMutex {x : Mutex} (hx : x.owner = (v.mutex m).owner) :
    Law { v with mutex := Function.update v.mutex m x } ↔ Law v := by
  refine law_congr rfl rfl ?_
  intro t n w
  obtain rfl | hn := eq_or_ne n m
  · simp [hx]
  · simp [hn]

theorem law_leave (hl : Law v) : Law (act self v (.leave t)) ↔ Fits self v (.leave t) := by
  have hsubset (o : ℕ) : due (act self v (.leave t)) o ⊆ due v o := by
    rintro p (hp | ⟨m, w, hm, hw, hp⟩)
    · exact .inl hp
    · exact .inr ⟨m, w, hm, (mem_unlink.mp hw).1, hp⟩
  constructor
  · intro h m o ht hm
    obtain hinit | ⟨n, w, hn, hw, hp⟩ := (h o).1
    · exact .inl hinit
    · exact .inr ⟨n, w, hn, (mem_unlink.mp hw).1, (mem_unlink.mp hw).2, hp⟩
  · intro h o
    refine ⟨?_, fun p hp ↦ (hl o).2 (hsubset o hp)⟩
    obtain hinit | ⟨m, w, hm, hw, hp⟩ := (hl o).1
    · exact .inl hinit
    · obtain rfl | hwt := eq_or_ne w t
      · obtain hinit | ⟨n, u, hn, hu, hut, hp⟩ := h m o hw hm
        · exact .inl hinit
        · exact .inr ⟨n, u, hn, mem_unlink.mpr ⟨hu, hut⟩, hp⟩
      · exact .inr ⟨m, w, hm, mem_unlink.mpr ⟨hw, hwt⟩, hp⟩

theorem mem_due_wait {p : ℕ} :
    p ∈ due (act self v (.wait m)) t ↔
      p = v.initPriority t ∨
        (∃ n w, (v.mutex n).owner = some t ∧ w ∈ v.waiters n ∧
          p = raised self (v.mutex m).owner v.priority w) ∨
        (v.mutex m).owner = some t ∧ p = raised self (v.mutex m).owner v.priority self := by
  have hmem (n w : ℕ) : w ∈ (act self v (.wait m)).waiters n ↔ w ∈ v.waiters n ∨ w = self ∧ n = m :=
    mem_update_perm waitersWith_perm
  simp only [due, Set.mem_ofPred_eq, hmem]
  refine or_congr_right ⟨?_, ?_⟩
  · rintro ⟨n, w, hn, hw | ⟨rfl, rfl⟩, hp⟩
    · exact .inl ⟨n, w, hn, hw, hp⟩
    · exact .inr ⟨hn, hp⟩
  · rintro (⟨n, w, hn, hw, hp⟩ | ⟨hm, hp⟩)
    · exact ⟨n, w, hn, .inl hw, hp⟩
    · exact ⟨m, self, hm, .inr ⟨rfl, rfl⟩, hp⟩

theorem law_wait_of_le (hl : Law v) {o : ℕ} (ho : (v.mutex m).owner = some o)
    (hle : v.priority o ≤ v.priority self) : Law (act self v (.wait m)) := by
  have hraised : raised self (v.mutex m).owner v.priority = v.priority := by
    rw [ho, raised, if_neg (not_lt.mpr hle)]
  intro t
  have hpriority : (act self v (.wait m)).priority t = v.priority t := congrFun hraised t
  rw [hpriority]
  refine ⟨?_, ?_⟩
  · rw [mem_due_wait, hraised]
    exact (hl t).1.imp_right .inl
  · intro p hp
    rw [mem_due_wait, hraised] at hp
    obtain hp | hp | ⟨ht, rfl⟩ := hp
    · exact (hl t).2 (.inl hp)
    · exact (hl t).2 (.inr hp)
    · obtain rfl := Option.some.inj (ho.symm.trans ht)
      exact hle

theorem law_wait_of_lt (hl : Law v) {o : ℕ} (ho : (v.mutex m).owner = some o)
    (hlt : v.priority self < v.priority o) :
    Law (act self v (.wait m)) ↔
      ∀ n u, o ∈ v.waiters n → (v.mutex n).owner = some u → u ≠ o →
        v.priority u ≤ v.priority self := by
  have hraised : raised self (v.mutex m).owner v.priority =
      Function.update v.priority o (v.priority self) := by
    rw [ho, raised, if_pos hlt]
  have hself : self ≠ o := by
    rintro rfl
    exact lt_irrefl _ hlt
  have hpriority (t : ℕ) : (act self v (.wait m)).priority t =
      Function.update v.priority o (v.priority self) t := congrFun hraised t
  constructor
  · intro h n u hmem hn hu
    have hdue : v.priority self ∈ due (act self v (.wait m)) u := by
      rw [mem_due_wait, hraised]
      exact .inr (.inl ⟨n, o, hn, hmem, by simp⟩)
    simpa [hpriority, hu] using (h u).2 hdue
  · intro h t
    rw [hpriority]
    refine ⟨?_, ?_⟩
    · rw [mem_due_wait, hraised]
      obtain rfl | hto := eq_or_ne t o
      · exact .inr (.inr ⟨ho, by simp [hself]⟩)
      · rw [Function.update_of_ne hto]
        obtain hinit | ⟨n, w, hn, hw, hp⟩ := (hl t).1
        · exact .inl hinit
        · -- the priority of the owner is due to nobody that is not less urgent
          have hwo : w ≠ o := by
            rintro rfl
            have hle := h n t hw hn hto
            omega
          exact .inr (.inl ⟨n, w, hn, hw, by rw [Function.update_of_ne hwo, hp]⟩)
    · intro p hp
      rw [mem_due_wait, hraised] at hp
      obtain rfl | hto := eq_or_ne t o
      · rw [Function.update_self]
        obtain rfl | ⟨n, w, hn, hw, rfl⟩ | ⟨-, rfl⟩ := hp
        · exact hlt.le.trans ((hl t).2 (.inl rfl))
        · obtain rfl | hwt := eq_or_ne w t
          · rw [Function.update_self]
          · rw [Function.update_of_ne hwt]
            exact hlt.le.trans ((hl t).2 (.inr ⟨n, w, hn, hw, rfl⟩))
        · rw [Function.update_of_ne hself]
      · rw [Function.update_of_ne hto]
        obtain rfl | ⟨n, w, hn, hw, rfl⟩ | ⟨ht, rfl⟩ := hp
        · exact (hl t).2 (.inl rfl)
        · obtain rfl | hwo := eq_or_ne w o
          · rw [Function.update_self]
            exact h n t hw hn hto
          · rw [Function.update_of_ne hwo]
            exact (hl t).2 (.inr ⟨n, w, hn, hw, rfl⟩)
        · exact absurd (Option.some.inj (ht.symm.trans ho)) hto

theorem law_wait (hl : Law v) (hv : Sound v) (he : Enabled self v (.wait m)) :
    Law (act self v (.wait m)) ↔ Fits self v (.wait m) := by
  obtain ⟨hone, -⟩ | ⟨-, o, ho⟩ := hv m
  · simp [Enabled, hone] at he
  · have howner (o' : ℕ) (ho' : (v.mutex m).owner = some o') : o' = o :=
      Option.some.inj (ho'.symm.trans ho)
    obtain hle | hlt := le_or_gt (v.priority o) (v.priority self)
    · refine ⟨fun _ o' ho' hlt ↦ ?_, fun _ ↦ law_wait_of_le hl ho hle⟩
      rw [howner o' ho'] at hlt
      omega
    · rw [law_wait_of_lt hl ho hlt]
      refine ⟨fun h o' ho' _ ↦ howner o' ho' ▸ h, fun h ↦ h o ho hlt⟩

/-- Who waits for what a thread other than the giver holds, once the mutex is free or
has gone to its first waiter. -/
theorem waits_release_iff (ha : Apart self v) (howner : (v.mutex m).owner = some self) {n u : ℕ}
    (ht : t ≠ self) (hhead : ∀ w l, v.waiters m = w :: l → t ≠ w) :
    ((act self v (.release m)).mutex n).owner = some t ∧ u ∈ (act self v (.release m)).waiters n ↔
      (v.mutex n).owner = some t ∧ u ∈ v.waiters n := by
  simp only [act]
  cases hl : v.waiters m with
  | nil =>
    obtain rfl | hn := eq_or_ne n m
    · simp [Mutex.freed, hl]
    · simp [hn]
  | cons w l =>
    have htw := hhead w l hl
    have hmem : w ∈ v.waiters m := by rw [hl]; exact List.mem_cons_self
    obtain rfl | hn := eq_or_ne n m
    · simp [Mutex.giveTo, Mutex.held, howner, htw.symm, ht.symm]
    · simp [hn, ha.linked.unlink_of_ne hmem hn]

theorem waits_release_self_iff (ha : Apart self v) {n u : ℕ} :
    ((act self v (.release m)).mutex n).owner = some self ∧
        u ∈ (act self v (.release m)).waiters n ↔
      n ≠ m ∧ (v.mutex n).owner = some self ∧ u ∈ v.waiters n := by
  simp only [act]
  cases hl : v.waiters m with
  | nil =>
    obtain rfl | hn := eq_or_ne n m
    · simp [Mutex.freed]
    · simp [hn]
  | cons w l =>
    have hmem : w ∈ v.waiters m := by rw [hl]; exact List.mem_cons_self
    have hw : w ≠ self := ne_of_mem_of_not_mem hmem (ha.unlinked m)
    obtain rfl | hn := eq_or_ne n m
    · simp [Mutex.giveTo, Mutex.held, hw]
    · simp [hn, ha.linked.unlink_of_ne hmem hn]

theorem priority_release :
    (act self v (.release m)).priority =
      Function.update v.priority self (v.mutex m).originalPriority := by
  simp only [act]
  cases v.waiters m <;> rfl

theorem initPriority_release : (act self v (.release m)).initPriority = v.initPriority := by
  simp only [act]
  cases v.waiters m <;> rfl

theorem priority_release_of_mem (ha : Apart self v) {n : ℕ} (hw : w ∈ v.waiters n) :
    (act self v (.release m)).priority w = v.priority w := by
  rw [priority_release]
  exact Function.update_of_ne (ne_of_mem_of_not_mem hw (ha.unlinked n)) _ _

theorem due_release_self (ha : Apart self v) :
    due (act self v (.release m)) self = dueWithout v m self := by
  ext p
  simp only [due, dueWithout, Set.mem_ofPred_eq, initPriority_release]
  refine or_congr_right (exists_congr fun n ↦ exists_congr fun w ↦ ?_)
  rw [← and_assoc, waits_release_self_iff ha, and_assoc, and_assoc]
  refine and_congr_right fun _ ↦ and_congr_right fun _ ↦ and_congr_right fun hw ↦ ?_
  rw [priority_release_of_mem ha hw]

theorem due_release_other (ha : Apart self v) (howner : (v.mutex m).owner = some self)
    (ht : t ≠ self) (hhead : ∀ w l, v.waiters m = w :: l → t ≠ w) :
    due (act self v (.release m)) t = due v t :=
  due_congr (congrFun initPriority_release t) (fun _ _ hw ↦ priority_release_of_mem ha hw)
    (fun _ _ ↦ waits_release_iff ha howner ht hhead)

theorem mem_due_release_head (ha : Apart self v) {l : List ℕ} (hl : v.waiters m = w :: l)
    (howner : (v.mutex m).owner = some self) {p : ℕ} :
    p ∈ due (act self v (.release m)) w ↔ p ∈ due v w ∨ ∃ u ∈ l, p = v.priority u := by
  have hmem : w ∈ v.waiters m := by rw [hl]; exact List.mem_cons_self
  have hw : self ≠ w := (ne_of_mem_of_not_mem hmem (ha.unlinked m)).symm
  have hwaits (n u : ℕ) : ((act self v (.release m)).mutex n).owner = some w ∧
      u ∈ (act self v (.release m)).waiters n ↔
        n = m ∧ u ∈ l ∨ (v.mutex n).owner = some w ∧ u ∈ v.waiters n := by
    simp only [act, hl]
    obtain rfl | hn := eq_or_ne n m
    · simp [Mutex.giveTo, Mutex.held, unlink_of_head ha.linked hl, howner, hw]
    · simp [hn, ha.linked.unlink_of_ne hmem hn]
  have hl' (u : ℕ) (hu : u ∈ l) : u ∈ v.waiters m := by
    rw [hl]
    exact List.mem_cons_of_mem w hu
  simp only [due, Set.mem_ofPred_eq, initPriority_release, ← and_assoc, hwaits]
  constructor
  · rintro (hp | ⟨n, u, ⟨rfl, hu⟩ | hu, hp⟩)
    · exact .inl (.inl hp)
    · exact .inr ⟨u, hu, hp.trans (priority_release_of_mem ha (hl' u hu))⟩
    · exact .inl (.inr ⟨n, u, hu, hp.trans (priority_release_of_mem ha hu.2)⟩)
  · rintro ((hp | ⟨n, u, hu, hp⟩) | ⟨u, hu, hp⟩)
    · exact .inl hp
    · exact .inr ⟨n, u, .inr hu, hp.trans (priority_release_of_mem ha hu.2).symm⟩
    · exact .inr ⟨m, u, .inl ⟨rfl, hu⟩, hp.trans (priority_release_of_mem ha (hl' u hu)).symm⟩

theorem law_release (hv : Law v) (he : Enabled self v (.release m)) (ha : Apart self v) :
    Law (act self v (.release m)) ↔ Fits self v (.release m) := by
  have hself : (act self v (.release m)).priority self = (v.mutex m).originalPriority := by
    rw [priority_release, Function.update_self]
  constructor
  · intro h
    refine ⟨?_, ?_⟩
    · have hleast := h self
      rwa [hself, due_release_self ha] at hleast
    · intro w l hl u hu
      have hmem : w ∈ v.waiters m := by rw [hl]; exact List.mem_cons_self
      have hle := (h w).2 ((mem_due_release_head ha hl he.1).mpr (.inr ⟨u, hu, rfl⟩))
      rwa [priority_release_of_mem ha hmem] at hle
  · rintro ⟨hleast, hfirst⟩ t
    obtain rfl | ht := eq_or_ne t self
    · rwa [hself, due_release_self ha]
    · have hpriority : (act self v (.release m)).priority t = v.priority t := by
        rw [priority_release]
        exact Function.update_of_ne ht _ _
      rw [hpriority]
      by_cases hhead : ∃ l, v.waiters m = t :: l
      · obtain ⟨l, hl⟩ := hhead
        refine ⟨(mem_due_release_head ha hl he.1).mpr (.inl (hv t).1), ?_⟩
        intro p hp
        obtain hp | ⟨u, hu, rfl⟩ := (mem_due_release_head ha hl he.1).mp hp
        · exact (hv t).2 hp
        · exact hfirst t l hl u hu
      · rw [due_release_other ha he.1 ht ?_]
        · exact hv t
        · rintro w l hl rfl
          exact hhead ⟨l, hl⟩

theorem law_act (hl : Law v) (hv : Sound v) (he : Enabled self v o)
    (ha : (∀ t, o ≠ .leave t) → Apart self v) : Law (act self v o) ↔ Fits self v o := by
  cases o with
  | take m => exact (law_take hv he).trans (iff_of_true hl trivial)
  | again m => exact (law_setMutex (x := (v.mutex m).held self) rfl).trans (iff_of_true hl trivial)
  | giveBack m =>
    exact (law_setMutex (x := (v.mutex m).unheld self) rfl).trans (iff_of_true hl trivial)
  | wait m => exact law_wait hl hv he
  | release m => exact law_release hl he (ha (by simp))
  | leave t => exact law_leave hl

/-- The current priority of each thread is the most urgent among its own one and those
of the threads that wait for a mutex of which it is the owner. -/
def Inherits (k : Kernel) : Prop :=
  ∀ t, IsLeast
    { p | p = k.sched.initPriority t ∨
      ∃ m w, (k.mutex m).owner = some t ∧ w ∈ k.sched.queue (.mutex m) ∧
        p = k.sched.currentPriority w }
    (k.sched.currentPriority t)

theorem Inherits.priority_eq (h : Inherits k) (ht : ∀ m, (k.mutex m).owner ≠ some t) :
    k.sched.currentPriority t = k.sched.initPriority t := by
  obtain hinit | ⟨m, w, hm, -⟩ := (h t).1
  · exact hinit
  · exact absurd hm (ht m)

def Careful (k : Kernel) (e : Input) : Prop :=
  ∀ o, move k e = some o → Fits (rtThreadSelf k) (view k) o

structure Fair (k : Kernel) : Prop where
  inv : Inv k
  sound : Sound (view k)
  law : Law (view k)

theorem apart_of_move (hk : Inv k) (hmove : move k e = some o) (ho : ∀ t, o ≠ .leave t) :
    Apart (rtThreadSelf k) (view k) := by
  have hact := acting_of_move hk hmove ho
  refine ⟨⟨fun m ↦ hk.valid.linked.nodup _, ?_⟩, ?_⟩
  · intro m n w hm hn
    simpa using hk.valid.linked.one _ _ w hm hn
  · exact fun m ↦ hk.valid.toConsistent.unlinked (by simp [hact.running]) (by simp [hact.running]) _

theorem inherits_iff_careful (hk : Fair k) (e : Input) : Inherits (step k e) ↔ Careful k e := by
  have hlaw : Inherits (step k e) ↔ Law (view (step k e)) := Iff.rfl
  rw [hlaw, view_step hk.inv e, Careful]
  cases hmove : move k e with
  | none => simpa [actOption] using hk.law
  | some o =>
    simp only [Option.some.injEq, forall_eq']
    exact law_act hk.law hk.sound (move_enabled hmove) (apart_of_move hk.inv hmove)

theorem fair_step (hk : Fair k) (hC : Careful k e) : Fair (step k e) := by
  refine ⟨inv_step hk.inv e, ?_, (inherits_iff_careful hk e).mpr hC⟩
  rw [view_step hk.inv e]
  cases hmove : move k e with
  | none => exact hk.sound
  | some o => exact sound_act hk.sound (move_enabled hmove)

theorem fair_boot (c : Setup) : Fair (boot c) where
  inv := inv_boot c
  sound _ := .inl ⟨rfl, rfl, rfl, rfl⟩
  law t := by
    refine ⟨.inl rfl, ?_⟩
    rintro p (rfl | ⟨m, w, hm, -⟩)
    · exact le_rfl
    · cases hm

/-- Priorities are inherited as they should in every state of a run if and only if every
wait, every last release and every timeout fits. -/
theorem inherits_iff (c : Setup) (es : List Input) :
    Along step (fun k e ↦ Inherits (step k e)) (boot c) es ↔ Along step Careful (boot c) es :=
  along_congr (fun _ _ hk hC ↦ fair_step hk hC) (fun _ e hk ↦ inherits_iff_careful hk e)
    (fair_boot c) es

/-- Threads 3 and 2 wait for the two mutexes of the main thread, which is as urgent as
thread 2 thereby. -/
def bothAwaited : List Input :=
  [.call (.mutexTake 0 0xFFFFFFFF), .call (.mutexTake 1 0xFFFFFFFF), .call (.startup 3), .go,
    .call (.mutexTake 1 0xFFFFFFFF), .go, .go, .call (.startup 2), .go,
    .call (.mutexTake 0 0xFFFFFFFF), .go, .go]

theorem not_inherits :
    ¬Along step (fun k e ↦ Inherits (step k e)) (boot threeThreads)
      (bothAwaited ++ [.call (.mutexRelease 0)]) := by
  intro h
  rw [along_append] at h
  have hdue := (h.2.1 mainThread).2 (.inr ⟨1, 3, by decide +kernel, by decide +kernel, rfl⟩)
  revert hdue
  decide +kernel

end GiantGecko.Rtos.Inheritance
