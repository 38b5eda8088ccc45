import GiantGecko.Foundation.Ring

namespace GiantGecko.Foundation.Window

open Foundation.Ring

variable {α : Type}

/-- So many items of a ring of `n`, from one of them on. -/
def window (n : ℕ) (buf : ℕ → α) (r k : ℕ) : List α := (List.range k).map fun i ↦ buf (slot n r i)

/-- Items have been written to a ring, from one place on, and no others. -/
structure Written (n : ℕ) (buf buf' : ℕ → α) (w : ℕ) (item : ℕ → α) (k : ℕ) : Prop where
  new : ∀ i < k, buf' (slot n w i) = item i
  old : ∀ j, (∀ i < k, slot n w i ≠ j) → buf' j = buf j

variable {n r w m k : ℕ} {buf buf' item : ℕ → α}

@[simp] theorem length_window : (window n buf r k).length = k := by simp [window]

theorem slot_lt {i : ℕ} (hr : r < n) (hi : i ≤ n) : slot n r i < n := by
  rw [slot]
  split_ifs <;> omega

theorem slot_slot {i : ℕ} (hr : r < n) (hm : m + i ≤ n) : slot n (slot n r m) i = slot n r (m + i) := by
  simp only [slot]
  split_ifs <;> omega

theorem window_append (hr : r < n) (hm : m + k ≤ n) :
    window n buf r (m + k) = window n buf r m ++ window n buf (slot n r m) k := by
  simp only [window, List.range_add, List.map_append, List.map_map]
  congr 1
  refine List.map_congr_left fun i hi ↦ ?_
  have hik := List.mem_range.mp hi
  rw [Function.comp_apply, slot_slot hr (by omega)]

theorem take_window (hr : r < n) (hm : m + k ≤ n) :
    (window n buf r (m + k)).take m = window n buf r m := by
  rw [window_append hr hm, List.take_left' length_window]

theorem drop_window (hr : r < n) (hm : m + k ≤ n) :
    (window n buf r (m + k)).drop m = window n buf (slot n r m) k := by
  rw [window_append hr hm, List.drop_left' length_window]

theorem Written.window_append (h : Written n buf buf' (slot n r m) item k) (hr : r < n)
    (hm : m + k ≤ n) :
    window n buf' r (m + k) = window n buf r m ++ (List.range k).map item := by
  rw [Window.window_append hr hm]
  congr 1
  · refine List.map_congr_left fun j hj ↦ h.old _ fun i hi ↦ ?_
    have hjm := List.mem_range.mp hj
    simp only [slot]
    split_ifs <;> omega
  · exact List.map_congr_left fun i hi ↦ h.new i (List.mem_range.mp hi)

theorem Written.window_overrun (h : Written n buf buf' (slot n r m) item k) (hr : r < n)
    (hm : m ≤ n) (hk : k ≤ n) (hover : n ≤ m + k) :
    window n buf' (slot n (slot n r m) k) n =
      (window n buf r m ++ (List.range k).map item).drop (m + k - n) := by
  obtain ⟨a, hma⟩ : ∃ a, m + k = n + a := ⟨m + k - n, by omega⟩
  obtain ⟨c, rfl⟩ : ∃ c, m = a + c := ⟨m - a, by omega⟩
  have hck : c + k = n := by omega
  have hstart : slot n (slot n r (a + c)) k = slot n r a := by
    simp only [slot]
    split_ifs <;> omega
  rw [← slot_slot hr hm] at h
  have hnew := h.window_append (slot_lt hr (by omega)) (Nat.le_of_eq hck)
  rw [hck] at hnew
  rw [hstart, hnew, hma, Nat.add_sub_cancel_left,
    List.drop_append_of_le_length (by rw [length_window]; omega), drop_window hr hm]

section Turns

/-- A place on a ring, with the side on which it is, moved on: the side changes at the end
of the ring. -/
def turn (n : ℕ) (p : ℕ × Bool) (k : ℕ) : ℕ × Bool :=
  if p.1 + k < n then (p.1 + k, p.2) else (p.1 + k - n, !p.2)

variable {p : ℕ × Bool}

theorem turn_fst : (turn n p k).1 = slot n p.1 k := by
  rw [turn, slot]
  split_ifs <;> rfl

theorem turn_turn (hp : p.1 < n) (hm : m + k ≤ n) : turn n (turn n p m) k = turn n p (m + k) := by
  by_cases h : p.1 + m < n
  · rw [turn, turn, if_pos h, turn]
    simp only [Nat.add_assoc]
  · have h' : ¬p.1 + (m + k) < n := by omega
    have hlt : p.1 + m - n + k < n := by omega
    rw [turn, turn, if_neg h, turn, if_neg h', if_pos hlt]
    simp only [Prod.mk.injEq, and_true]
    omega

theorem turn_self : turn n p n = (p.1, !p.2) := by
  rw [turn, if_neg (by omega), Nat.add_sub_cancel]

end Turns

end GiantGecko.Foundation.Window
