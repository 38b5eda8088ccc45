import Mathlib.Tactic.IntervalCases
import GiantGecko.Rtos.Scheduler

namespace GiantGecko.Rtos.Scheduler

open Foundation.OrderedQueue Foundation.Intrusive

def IsLowestBit (value : BitVec 32) (p : ℕ) : Prop :=
  value.getLsbD p ∧ ∀ q < p, value.getLsbD q = false

theorem length_lowestBitBitmap : lowestBitBitmap.length = 256 := by
  decide +kernel

/-- The table, in one walk over it. -/
theorem lowestBitBitmap_entries : ∀ e ∈ lowestBitBitmap.zipIdx, e.2 ≠ 0 →
    e.1 < 8 ∧ e.2.testBit e.1 ∧ ∀ q : Fin e.1, e.2.testBit q = false := by
  decide +kernel

theorem lowestBitBitmap_spec (b : Fin 256) (h : b ≠ 0) :
    lowestBitBitmap.getD b.val 0 < 8 ∧ b.val.testBit (lowestBitBitmap.getD b.val 0) ∧
      ∀ q : Fin (lowestBitBitmap.getD b.val 0), b.val.testBit q = false := by
  have hlt : b.val < lowestBitBitmap.length := by
    rw [length_lowestBitBitmap]
    exact b.isLt
  have hget : lowestBitBitmap[b.val]? = some (lowestBitBitmap.getD b.val 0) := by
    rw [List.getD_eq_getElem?_getD, List.getElem?_eq_getElem hlt]
    rfl
  exact lowestBitBitmap_entries _ (List.mk_mem_zipIdx_iff_getElem?.mpr hget)
    (Fin.val_ne_zero_iff.mpr h)

theorem getLsbD_ff (q : ℕ) : (0xff#32).getLsbD q = decide (q < 8) := by
  obtain h | h := lt_or_ge q 8
  · simp only [h, decide_true]
    interval_cases q <;> rfl
  · have hlt : (0xff#32).toNat < 2 ^ q :=
      lt_of_lt_of_le (by decide) (Nat.pow_le_pow_right (by omega) h)
    simp only [not_lt.mpr h, decide_false]
    exact Nat.testBit_lt_two_pow hlt

theorem getLsbD_byte (value : BitVec 32) (i q : ℕ) :
    ((value &&& 0xff#32 <<< i) >>> i).getLsbD q = (decide (q < 8) && value.getLsbD (i + q)) := by
  simp only [BitVec.getLsbD_ushiftRight, BitVec.getLsbD_and, BitVec.getLsbD_shiftLeft, getLsbD_ff]
  grind

theorem byte_clear {value : BitVec 32} {i q : ℕ} (h : value &&& 0xff#32 <<< i = 0) (hq : i ≤ q)
    (hq' : q < i + 8) : value.getLsbD q = false := by
  have hbyte := getLsbD_byte value i (q - i)
  rw [h, show i + (q - i) = q by omega] at hbyte
  simpa [show q - i < 8 by omega] using hbyte.symm

theorem byte_lowest {value : BitVec 32} {i : ℕ} (hi : i + 8 ≤ 32)
    (hbelow : ∀ q < i, value.getLsbD q = false) (h : value &&& 0xff#32 <<< i ≠ 0) :
    ∃ p < 32, lowestBitBitmap.getD ((value &&& 0xff#32 <<< i) >>> i).toNat 0 + (i + 1) = p + 1 ∧
      IsLowestBit value p := by
  set b := ((value &&& 0xff#32 <<< i) >>> i).toNat with hb
  have testBit (q : ℕ) : b.testBit q = (decide (q < 8) && value.getLsbD (i + q)) := by
    rw [hb, BitVec.testBit_toNat, getLsbD_byte]
  have hlt : b < 2 ^ 8 := by
    apply Nat.lt_pow_two_of_testBit
    intro q hq
    simp [testBit, not_lt.mpr hq]
  have hne : b ≠ 0 := by
    intro hzero
    apply h
    apply BitVec.eq_of_getLsbD_eq
    intro q hq
    have hbit := testBit (q - i)
    simp only [hzero, Nat.zero_testBit] at hbit
    simp only [BitVec.getLsbD_and, BitVec.getLsbD_shiftLeft, getLsbD_ff]
    grind
  obtain ⟨h8, hset, hclear⟩ := lowestBitBitmap_spec ⟨b, hlt⟩ (by simpa [Fin.ext_iff] using hne)
  simp only at h8 hset hclear
  refine ⟨lowestBitBitmap.getD b 0 + i, by omega, by omega, ?_, ?_⟩
  · rw [testBit, Bool.and_eq_true] at hset
    rw [Nat.add_comm]
    exact hset.2
  · intro q hq
    obtain hq' | hq' := lt_or_ge q i
    · exact hbelow q hq'
    · have hbit := hclear ⟨q - i, by omega⟩
      rw [testBit] at hbit
      simpa [show q - i < 8 by omega, show i + (q - i) = q by omega] using hbit

theorem rtFfs_spec {value : BitVec 32} (h : value ≠ 0) :
    ∃ p < 32, rtFfs value = p + 1 ∧ IsLowestBit value p := by
  rw [rtFfs, if_neg h]
  split_ifs with h0 h1 h2
  · exact byte_lowest (i := 0) (by omega) (by omega) h0
  · have hclear0 : value &&& 0xff#32 <<< 0 = 0 := by simpa using h0
    refine byte_lowest (i := 8) (by omega) ?_ h1
    exact fun q hq ↦ byte_clear hclear0 (by omega) (by omega)
  · have hclear0 : value &&& 0xff#32 <<< 0 = 0 := by simpa using h0
    have hclear1 : value &&& 0xff#32 <<< 8 = 0 := by simpa using h1
    refine byte_lowest (i := 16) (by omega) ?_ h2
    intro q hq
    obtain hq' | hq' := lt_or_ge q 8
    · exact byte_clear hclear0 (by omega) (by omega)
    · exact byte_clear hclear1 (by omega) (by omega)
  · have hclear0 : value &&& 0xff#32 <<< 0 = 0 := by simpa using h0
    have hclear1 : value &&& 0xff#32 <<< 8 = 0 := by simpa using h1
    have hclear2 : value &&& 0xff#32 <<< 16 = 0 := by simpa using h2
    have hbelow (q : ℕ) (hq : q < 24) : value.getLsbD q = false := by
      obtain hq' | hq' := lt_or_ge q 8
      · exact byte_clear hclear0 (by omega) (by omega)
      · obtain hq'' | hq'' := lt_or_ge q 16
        · exact byte_clear hclear1 (by omega) (by omega)
        · exact byte_clear hclear2 (by omega) (by omega)
    refine byte_lowest (i := 24) (by omega) hbelow ?_
    intro hclear3
    apply h
    apply BitVec.eq_of_getLsbD_eq
    intro q hq
    obtain hq' | hq' := lt_or_ge q 24
    · simpa using hbelow q hq'
    · simpa using byte_clear hclear3 hq' (by omega)

theorem getLsbD_one_shiftLeft {p q : ℕ} (hq : q < 32) : (1#32 <<< p).getLsbD q = decide (q = p) := by
  simp only [BitVec.getLsbD_shiftLeft, BitVec.getLsbD_one]
  grind

def Head.waits : Head → Bool
  | .ready _ => false
  | _ => true

/-- Lists, group, masks and timers agree with the states of the threads; nothing is
said of the current thread. -/
structure Consistent (s : Sched) : Prop where
  linked : Linked s.queue
  ready : ∀ t p, t ∈ s.queue (.ready p) ↔ s.stat t = .ready ∧ s.currentPriority t = p
  waiting : ∀ h t, h.waits → t ∈ s.queue h → s.stat t = .suspend
  priority : ∀ t, s.currentPriority t < 32
  mask : ∀ t, s.stat t ≠ .init → s.numberMask t = 1#32 <<< s.currentPriority t
  group : ∀ p < 32, s.readyPriorityGroup.getLsbD p = true ↔ s.queue (.ready p) ≠ []
  timer : ∀ t, s.threadTimer t = true → s.stat t = .suspend

/-- All agree but for one thread, which is in no list and may be in any state. -/
structure Detached (t : ℕ) (s : Sched) : Prop where
  linked : Linked s.queue
  unlinked : ∀ h, t ∉ s.queue h
  ready : ∀ u ≠ t, ∀ p, u ∈ s.queue (.ready p) ↔ s.stat u = .ready ∧ s.currentPriority u = p
  waiting : ∀ h u, h.waits → u ∈ s.queue h → s.stat u = .suspend
  priority : ∀ u, s.currentPriority u < 32
  mask : ∀ u, u = t ∨ s.stat u ≠ .init → s.numberMask u = 1#32 <<< s.currentPriority u
  group : ∀ p < 32, s.readyPriorityGroup.getLsbD p = true ↔ s.queue (.ready p) ≠ []
  timer : ∀ u, s.threadTimer u = true → u ≠ t ∧ s.stat u = .suspend

variable {s : Sched} {t u p : ℕ} {h : Head} {l : List ℕ}

theorem Consistent.unlinked (hs : Consistent s) (hready : s.stat t ≠ .ready)
    (hsuspend : s.stat t ≠ .suspend) (h : Head) : t ∉ s.queue h := by
  intro hmem
  cases hh : h.waits with
  | true => exact hsuspend (hs.waiting h t hh hmem)
  | false =>
    cases h with
    | ready p => exact hready ((hs.ready t p).mp hmem).1
    | _ => cases hh

theorem Consistent.detached (hs : Consistent s) (hrunning : s.stat t = .running) :
    Detached t s where
  linked := hs.linked
  unlinked := hs.unlinked (by simp [hrunning]) (by simp [hrunning])
  ready u _ := hs.ready u
  waiting := hs.waiting
  priority := hs.priority
  mask u hu := hs.mask u (hu.elim (fun hut ↦ by simp [hut, hrunning]) id)
  group := hs.group
  timer u hu := by
    have hsuspend := hs.timer u hu
    refine ⟨?_, hsuspend⟩
    rintro rfl
    simp [hrunning] at hsuspend

theorem clear_eq_self (hgroup : ∀ q < 32, s.readyPriorityGroup.getLsbD q = true ↔ s.queue (.ready q) ≠ [])
    (hmask : s.numberMask t = 1#32 <<< p) (hempty : s.queue (.ready p) = []) :
    s.readyPriorityGroup &&& ~~~s.numberMask t = s.readyPriorityGroup := by
  apply BitVec.eq_of_getLsbD_eq
  intro q hq
  have hbit := hgroup q hq
  simp only [hmask, BitVec.getLsbD_and, BitVec.getLsbD_not, getLsbD_one_shiftLeft hq, hq]
  by_cases hqp : q = p
  · subst hqp
    simpa [hempty] using hbit
  · simp [hqp]

theorem Consistent.clear_eq (hs : Consistent s)
    (hmask : s.numberMask t = 1#32 <<< s.currentPriority t)
    (hempty : s.queue (.ready (s.currentPriority t)) = []) :
    s.readyPriorityGroup &&& ~~~s.numberMask t = s.readyPriorityGroup :=
  clear_eq_self hs.group hmask hempty

section Restate

variable {x : Stat}

theorem Detached.mask_stat (hs : Detached t s) (hu : Function.update s.stat t x u ≠ .init) :
    s.numberMask u = 1#32 <<< s.currentPriority u := by
  obtain rfl | hut := eq_or_ne u t
  · exact hs.mask u (.inl rfl)
  · rw [Function.update_of_ne hut] at hu
    exact hs.mask u (.inr hu)

theorem Detached.waiting_stat (hs : Detached t s) (hh : h.waits) (hmem : u ∈ s.queue h) :
    Function.update s.stat t x u = .suspend := by
  rw [Function.update_of_ne (ne_of_mem_of_not_mem hmem (hs.unlinked h))]
  exact hs.waiting h u hh hmem

theorem Detached.timer_stat (hs : Detached t s) (hu : s.threadTimer u = true) :
    Function.update s.stat t x u = .suspend := by
  obtain ⟨hut, hsuspend⟩ := hs.timer u hu
  rwa [Function.update_of_ne hut]

end Restate

theorem Detached.rest {x : Stat} (hs : Detached t s) (hx : x ≠ .ready) :
    Consistent { s with stat := Function.update s.stat t x } := by
  refine ⟨hs.linked, ?_, fun _ _ hh hmem ↦ hs.waiting_stat hh hmem, hs.priority,
    fun _ hu ↦ hs.mask_stat hu, hs.group, fun _ hu ↦ hs.timer_stat hu⟩
  intro u p
  obtain rfl | hut := eq_or_ne u t
  · simp [hs.unlinked, hx]
  · simpa only [Function.update_of_ne hut] using hs.ready u hut p

theorem Detached.stopped (hs : Detached t s) :
    Detached t { s with threadTimer := Function.update s.threadTimer t false } where
  linked := hs.linked
  unlinked := hs.unlinked
  ready := hs.ready
  waiting := hs.waiting
  priority := hs.priority
  mask := hs.mask
  group := hs.group
  timer u hu := by
    obtain rfl | hut := eq_or_ne u t
    · simp at hu
    · simp only [Function.update_of_ne hut] at hu
      exact hs.timer u hu

theorem Detached.run (hs : Detached t s) :
    Consistent { s with stat := Function.update s.stat t .running } := hs.rest (by decide)

theorem Detached.readied (hs : Detached t s) :
    Consistent
      { s with
        stat := Function.update s.stat t .ready
        queue := Function.update s.queue (.ready (s.currentPriority t))
          (s.queue (.ready (s.currentPriority t)) ++ [t])
        readyPriorityGroup := s.readyPriorityGroup ||| s.numberMask t } := by
  have hperm : (s.queue (.ready (s.currentPriority t)) ++ [t]).Perm
      (t :: s.queue (.ready (s.currentPriority t))) := List.perm_append_singleton _ _
  have hstat (u : ℕ) (hu : u ≠ t) : Function.update s.stat t .ready u = s.stat u :=
    Function.update_of_ne hu _ _
  refine ⟨?_, ?_, ?_, hs.priority, fun _ hu ↦ hs.mask_stat hu, ?_, fun _ hu ↦ hs.timer_stat hu⟩
  · exact hs.linked.update hs.unlinked hperm
  · intro u p
    rw [mem_update_perm hperm]
    obtain rfl | hut := eq_or_ne u t
    · simp [hs.unlinked, eq_comm]
    · simp only [hstat u hut, hs.ready u hut, hut, false_and, or_false]
  · intro h u hh hmem
    obtain hmem | ⟨-, rfl⟩ := (mem_update_perm hperm).mp hmem
    · exact hs.waiting_stat hh hmem
    · cases hh
  · intro p hp
    have hgroup := hs.group p hp
    simp only [hs.mask t (.inl rfl), BitVec.getLsbD_or, getLsbD_one_shiftLeft hp]
    by_cases hpt : p = s.currentPriority t
    · subst hpt
      simp
    · simpa [hpt] using hgroup

theorem Detached.insert (hs : Detached t s) : Consistent (rtScheduleInsertThread t s) := by
  rw [rtScheduleInsertThread]
  split_ifs
  · exact hs.run
  · exact hs.readied

theorem Detached.remove_eq (hs : Detached t s) : rtScheduleRemoveThread t s = s := by
  have hunlink : unlink t s.queue = s.queue := unlink_of_unlinked hs.unlinked
  rw [rtScheduleRemoveThread, hunlink]
  split_ifs with hempty
  · rw [clear_eq_self hs.group (hs.mask t (.inl rfl)) hempty]
  · rfl

theorem Consistent.detach (hs : Consistent s) (hstat : s.stat t ≠ .init) {g : BitVec 32}
    {tm : ℕ → Bool}
    (hgroup : ∀ p < 32, g.getLsbD p = true ↔ unlink t s.queue (.ready p) ≠ [])
    (htimer : ∀ u, tm u = true → u ≠ t ∧ s.stat u = .suspend) :
    Detached t
      { s with queue := unlink t s.queue, readyPriorityGroup := g, threadTimer := tm } where
  linked := hs.linked.unlink t
  unlinked h := by simp
  ready u hu p := by simp [hu, hs.ready]
  waiting h u hh hmem := hs.waiting h u hh (mem_unlink.mp hmem).1
  priority := hs.priority
  mask u hu := hs.mask u (hu.elim (fun hut ↦ hut ▸ hstat) id)
  group := hgroup
  timer := htimer

theorem Consistent.remove (hs : Consistent s) (hready : s.stat t = .ready) :
    Detached t (rtScheduleRemoveThread t s) := by
  have hstat : s.stat t ≠ .init := by simp [hready]
  have hmem : t ∈ s.queue (.ready (s.currentPriority t)) := (hs.ready t _).mpr ⟨hready, rfl⟩
  have hother (p : ℕ) (hp : p ≠ s.currentPriority t) :
      unlink t s.queue (.ready p) = s.queue (.ready p) :=
    hs.linked.unlink_of_ne hmem (by simpa using hp)
  have htimer (u : ℕ) (hu : s.threadTimer u = true) : u ≠ t ∧ s.stat u = .suspend := by
    have hsuspend := hs.timer u hu
    refine ⟨?_, hsuspend⟩
    rintro rfl
    simp [hready] at hsuspend
  rw [rtScheduleRemoveThread]
  split_ifs with hempty
  · refine hs.detach hstat ?_ htimer
    intro p hp
    have hgroup := hs.group p hp
    simp only [hs.mask t hstat, BitVec.getLsbD_and, BitVec.getLsbD_not, getLsbD_one_shiftLeft hp, hp]
    by_cases hpt : p = s.currentPriority t
    · subst hpt
      simp [hempty]
    · simpa [hpt, hother p hpt] using hgroup
  · refine hs.detach hstat ?_ htimer
    intro p hp
    by_cases hpt : p = s.currentPriority t
    · subst hpt
      simp only [hempty, ne_eq, not_false_eq_true, iff_true]
      exact (hs.group _ hp).mpr (List.ne_nil_of_mem hmem)
    · rw [hother p hpt]
      exact hs.group p hp

theorem Consistent.wake (hs : Consistent s) (hsuspend : s.stat t = .suspend) :
    Detached t
      { s with
        queue := unlink t s.queue
        threadTimer := Function.update s.threadTimer t false } := by
  refine hs.detach (by simp [hsuspend]) ?_ ?_
  · intro p hp
    have hready : t ∉ s.queue (.ready p) := by simp [hs.ready, hsuspend]
    rw [unlink_eq_self hready]
    exact hs.group p hp
  · intro u hu
    obtain rfl | hut := eq_or_ne u t
    · simp at hu
    · exact ⟨hut, hs.timer u (by simpa [hut] using hu)⟩

theorem Detached.suspended (hs : Detached t s) {q : Head → List ℕ} (hq : Linked q)
    (hready : ∀ p, q (.ready p) = s.queue (.ready p))
    (hwaits : ∀ h u, h.waits → u ∈ q h → u ∈ s.queue h ∨ u = t) (b : Bool) :
    Consistent
      { s with
        stat := Function.update s.stat t .suspend
        threadTimer := Function.update s.threadTimer t b
        queue := q } := by
  have hstat (u : ℕ) (hu : u ≠ t) : Function.update s.stat t .suspend u = s.stat u :=
    Function.update_of_ne hu _ _
  refine ⟨hq, ?_, ?_, hs.priority, fun _ hu ↦ hs.mask_stat hu, ?_, ?_⟩
  · intro u p
    simp only [hready]
    obtain rfl | hut := eq_or_ne u t
    · simp [hs.unlinked]
    · simp only [hstat u hut, hs.ready u hut]
  · intro h u hh hmem
    obtain hmem | rfl := hwaits h u hh hmem
    · exact hs.waiting_stat hh hmem
    · simp
  · intro p hp
    simp only [hready]
    exact hs.group p hp
  · intro u hu
    obtain rfl | hut := eq_or_ne u t
    · simp
    · simp only [Function.update_of_ne hut] at hu
      exact hs.timer_stat hu

theorem Consistent.setPriority (hs : Consistent s) (hready : s.stat t ≠ .ready) (hp : p < 32) :
    Consistent (setPriority t p s) where
  linked := hs.linked
  ready u q := by
    obtain rfl | hut := eq_or_ne u t
    · simp [Scheduler.setPriority, hs.ready, hready]
    · simp [Scheduler.setPriority, hs.ready, hut]
  waiting := hs.waiting
  priority u := by
    obtain rfl | hut := eq_or_ne u t
    · simpa [Scheduler.setPriority] using hp
    · simpa [Scheduler.setPriority, hut] using hs.priority u
  mask u hu := by
    obtain rfl | hut := eq_or_ne u t
    · simp [Scheduler.setPriority]
    · simpa [Scheduler.setPriority, hut] using hs.mask u hu
  group := hs.group
  timer := hs.timer

theorem Detached.setPriority (hs : Detached t s) (hp : p < 32) :
    Detached t (setPriority t p s) where
  linked := hs.linked
  unlinked := hs.unlinked
  ready u hu q := by simpa [Scheduler.setPriority, hu] using hs.ready u hu q
  waiting := hs.waiting
  priority u := by
    obtain rfl | hut := eq_or_ne u t
    · simpa [Scheduler.setPriority] using hp
    · simpa [Scheduler.setPriority, hut] using hs.priority u
  mask u hu := by
    obtain rfl | hut := eq_or_ne u t
    · simp [Scheduler.setPriority]
    · simpa [Scheduler.setPriority, hut] using hs.mask u hu
  group := hs.group
  timer := hs.timer

end GiantGecko.Rtos.Scheduler
