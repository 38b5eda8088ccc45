import Mathlib.Data.List.Basic

namespace GiantGecko.Foundation.Ring

variable {α : Type} [Inhabited α]

def next (n i : ℕ) : ℕ := if i + 1 ≥ n then 0 else i + 1

def slot (n r k : ℕ) : ℕ := if r + k < n then r + k else r + k - n

/-- Number of stored items, for a read index `r` and a write index `w`. -/
def count (n r w : ℕ) : ℕ := if r > w then n - r + w else w - r

def contents (n : ℕ) (buf : List α) (r w : ℕ) : List α :=
  (List.range (count n r w)).map fun k ↦ buf.getD (slot n r k) default

theorem next_lt {n : ℕ} (hn : 0 < n) (i : ℕ) : next n i < n := by
  rw [next]
  split_ifs <;> omega

@[simp] theorem length_contents (n : ℕ) (buf : List α) (r w : ℕ) :
    (contents n buf r w).length = count n r w := by
  simp [contents]

theorem count_lt {n r w : ℕ} (hr : r < n) (hw : w < n) : count n r w < n := by
  rw [count]
  split_ifs <;> omega

theorem count_eq_zero {n r w : ℕ} (hr : r < n) : count n r w = 0 ↔ r = w := by
  rw [count]
  split_ifs <;> omega

theorem slot_count {n r w : ℕ} (hr : r < n) (hw : w < n) : slot n r (count n r w) = w := by
  rw [slot, count]
  split_ifs <;> omega

theorem slot_ne {n r w k : ℕ} (hr : r < n) (hk : k < count n r w) :
    slot n r k ≠ w := by
  rw [count] at hk
  rw [slot]
  split_ifs at hk ⊢ <;> omega

theorem slot_next {n r k : ℕ} (hr : r < n) (hk : k + 1 < n) :
    slot n (next n r) k = slot n r (k + 1) := by
  simp only [slot, next]
  split_ifs <;> omega

theorem next_eq_iff {n r w : ℕ} (hr : r < n) (hw : w < n) :
    next n w = r ↔ count n r w + 1 = n := by
  simp only [next, count]
  split_ifs <;> omega

theorem count_next_write {n r w : ℕ} (hr : r < n) (hw : w < n) (h : next n w ≠ r) :
    count n r (next n w) = count n r w + 1 := by
  simp only [next, count] at h ⊢
  split_ifs at h ⊢ <;> omega

theorem count_next_read {n r w : ℕ} (hr : r < n) (hw : w < n) (h : r ≠ w) :
    count n r w = count n (next n r) w + 1 := by
  simp only [next, count]
  split_ifs <;> omega

theorem map_set_of_ne (buf : List α) {n r w c : ℕ} (b : α) (h : ∀ k < c, slot n r k ≠ w) :
    (List.range c).map (fun k ↦ (buf.set w b).getD (slot n r k) default) =
      (List.range c).map fun k ↦ buf.getD (slot n r k) default := by
  refine List.map_congr_left fun k hk ↦ ?_
  have hne := h k (List.mem_range.mp hk)
  rw [List.getD_eq_getElem?_getD, List.getD_eq_getElem?_getD, List.getElem?_set_ne hne.symm]

theorem contents_push {n : ℕ} {buf : List α} (hbuf : buf.length = n) {r w : ℕ} (hr : r < n)
    (hw : w < n) (h : next n w ≠ r) (b : α) :
    contents n (buf.set w b) r (next n w) = contents n buf r w ++ [b] := by
  have hkeep := map_set_of_ne buf (w := w) b fun k hk ↦ slot_ne hr hk
  have hlast : (buf.set w b).getD w default = b := by
    rw [List.getD_eq_getElem?_getD, List.getElem?_set_self (by omega)]
    rfl
  rw [contents, count_next_write hr hw h, List.range_succ, List.map_append, hkeep,
    List.map_singleton, slot_count hr hw, hlast, contents]

theorem contents_pop {n : ℕ} (buf : List α) {r w : ℕ} (hr : r < n) (hw : w < n) (h : r ≠ w) :
    contents n buf r w = buf.getD r default :: contents n buf (next n r) w := by
  have hcount := count_next_read hr hw h
  have hlt := count_lt hr hw
  have hfirst : slot n r 0 = r := by
    rw [slot, if_pos (by omega), Nat.add_zero]
  rw [contents, hcount, List.range_succ_eq_map, List.map_cons, List.map_map, hfirst, contents]
  congr 1
  refine List.map_congr_left fun k hk ↦ ?_
  have hk' := List.mem_range.mp hk
  rw [Function.comp_apply, slot_next hr (by omega)]

theorem contents_push_full {n : ℕ} (hn : 1 < n) {buf : List α} (hbuf : buf.length = n) {r w : ℕ}
    (hr : r < n) (hw : w < n) (h : next n w = r) (b : α) :
    contents n (buf.set w b) (next n r) (next n w) = (contents n buf r w).tail ++ [b] := by
  have hne : r ≠ w := by
    rw [← h, next]
    split_ifs <;> omega
  have hroom : next n w ≠ next n r := by
    rw [h, next]
    split_ifs <;> omega
  rw [contents_pop buf hr hw hne, List.tail_cons]
  exact contents_push hbuf (next_lt (by omega) r) hw hroom b

end GiantGecko.Foundation.Ring
