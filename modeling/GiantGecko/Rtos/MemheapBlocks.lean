import GiantGecko.Rtos.MemheapItems
import Mathlib.Data.List.Chain

namespace GiantGecko.Rtos.Memheap

open Foundation.Bytes Foundation.Links

def Block.payload (b : Block) : ℕ := b.addr + rtMemheapSize

def Block.stop (b : Block) : ℕ := b.addr + rtMemheapSize + b.size

/-- The blocks lie side by side and fill the place between two addresses. -/
def Tiles : ℕ → List Block → ℕ → Prop
  | a, [], e => a = e
  | a, b :: bs, e => b.addr = a ∧ Tiles b.stop bs e

section Tilings

variable {a e : ℕ} {b c : Block} {bs u v : List Block}

@[simp] theorem tiles_nil : Tiles a [] e ↔ a = e := Iff.rfl

@[simp] theorem tiles_cons : Tiles a (b :: bs) e ↔ b.addr = a ∧ Tiles b.stop bs e := Iff.rfl

theorem tiles_append : Tiles a (u ++ b :: v) e ↔ Tiles a u b.addr ∧ Tiles b.stop v e := by
  induction u generalizing a with
  | nil => simp [eq_comm]
  | cons d u ih => simp only [List.cons_append, tiles_cons, ih, and_assoc]

theorem Tiles.length_le (h : Tiles a bs e) : a + rtMemheapSize * bs.length ≤ e := by
  induction bs generalizing a with
  | nil => simp [h.le]
  | cons b bs ih =>
    have hs := ih h.2
    have hb := h.1
    simp only [Block.stop, List.length_cons, rtMemheapSize] at hs ⊢
    omega

theorem Tiles.le (h : Tiles a bs e) : a ≤ e := (Nat.le_add_right _ _).trans h.length_le

theorem Tiles.bounds (h : Tiles a bs e) (hb : b ∈ bs) : a ≤ b.addr ∧ b.stop ≤ e := by
  obtain ⟨u, v, rfl⟩ := List.append_of_mem hb
  have huv := tiles_append.mp h
  exact ⟨huv.1.le, huv.2.le⟩

theorem Tiles.apart (h : Tiles a bs e) (hb : b ∈ bs) (hc : c ∈ bs) (hne : c ≠ b) :
    c.stop ≤ b.addr ∨ b.stop ≤ c.addr := by
  obtain ⟨u, v, rfl⟩ := List.append_of_mem hb
  have huv := tiles_append.mp h
  obtain hc | hc := List.mem_append.mp hc
  · exact .inl (huv.1.bounds hc).2
  · obtain rfl | hc := List.mem_cons.mp hc
    · exact absurd rfl hne
    · exact .inr (huv.2.bounds hc).1

theorem Block.addr_lt_stop (b : Block) : b.addr + rtMemheapSize ≤ b.stop :=
  Nat.le_add_right _ _

theorem Tiles.nodup (h : Tiles a bs e) : (bs.map Block.addr).Nodup := by
  induction bs generalizing a with
  | nil => exact List.nodup_nil
  | cons b bs ih =>
    refine List.nodup_cons.mpr ⟨?_, ih h.2⟩
    intro hb
    obtain ⟨c, hc, hcb⟩ := List.mem_map.mp hb
    have hbc := (h.2.bounds hc).1
    have hs := b.addr_lt_stop
    simp only [rtMemheapSize] at hs
    omega

theorem Tiles.addr_notMem (h : Tiles a (u ++ b :: v) e) : b.addr ∉ (u ++ v).map Block.addr := by
  have hnodup := h.nodup
  simp only [List.map_append, List.map_cons, List.mem_append, not_or] at hnodup ⊢
  obtain ⟨-, hv, hd⟩ := List.nodup_append.mp hnodup
  exact ⟨fun hu ↦ hd _ hu b.addr (by simp) rfl, (List.nodup_cons.mp hv).1⟩

theorem Tiles.next (h : Tiles a (u ++ b :: c :: v) e) : c.addr = b.stop :=
  (tiles_append.mp h).2.1

theorem Tiles.split {n : Block} {size : ℕ} (h : Tiles a (u ++ b :: v) e)
    (hn : n.addr = b.addr + rtMemheapSize + size) (hs : n.stop = b.stop) :
    Tiles a (u ++ { b with size } :: n :: v) e := by
  obtain ⟨hu, hv⟩ := tiles_append.mp h
  exact tiles_append.mpr ⟨hu, hn, hs ▸ hv⟩

theorem Tiles.merge (h : Tiles a (u ++ b :: c :: v) e) :
    Tiles a (u ++ { b with size := b.size + rtMemheapSize + c.size } :: v) e := by
  obtain ⟨hu, hc, hv⟩ := tiles_append.mp h
  refine tiles_append.mpr ⟨hu, ?_⟩
  have hs : Block.stop { b with size := b.size + rtMemheapSize + c.size } = c.stop := by
    simp only [Block.stop, rtMemheapSize] at hc ⊢
    omega
  rw [hs]
  exact hv

end Tilings

section Flags

def freeBlocks (bs : List Block) : List Block := bs.filter fun b ↦ !b.used

def usedBlocks (bs : List Block) : List Block := bs.filter Block.used

def freeBytes (bs : List Block) : ℕ := ((freeBlocks bs).map Block.size).sum

/-- No two blocks side by side are free. -/
def Isolated (bs : List Block) : Prop := bs.IsChain fun b c ↦ b.used ∨ c.used

variable {b : Block} {bs u v : List Block}

@[simp] theorem freeBlocks_append : freeBlocks (u ++ v) = freeBlocks u ++ freeBlocks v :=
  List.filter_append ..

@[simp] theorem usedBlocks_append : usedBlocks (u ++ v) = usedBlocks u ++ usedBlocks v :=
  List.filter_append ..

@[simp] theorem freeBlocks_cons :
    freeBlocks (b :: v) = if b.used then freeBlocks v else b :: freeBlocks v := by
  cases h : b.used <;> simp [freeBlocks, h]

@[simp] theorem usedBlocks_cons :
    usedBlocks (b :: v) = if b.used then b :: usedBlocks v else usedBlocks v := by
  cases h : b.used <;> simp [usedBlocks, h]

@[simp] theorem freeBlocks_nil : freeBlocks [] = [] := rfl

@[simp] theorem usedBlocks_nil : usedBlocks [] = [] := rfl

@[simp] theorem mem_freeBlocks : b ∈ freeBlocks bs ↔ b ∈ bs ∧ b.used = false := by
  simp [freeBlocks]

@[simp] theorem mem_usedBlocks : b ∈ usedBlocks bs ↔ b ∈ bs ∧ b.used = true := by
  simp [usedBlocks]

@[simp] theorem freeBytes_append : freeBytes (u ++ v) = freeBytes u + freeBytes v := by
  simp [freeBytes]

@[simp] theorem freeBytes_cons :
    freeBytes (b :: v) = if b.used then freeBytes v else b.size + freeBytes v := by
  cases h : b.used <;> simp [freeBytes, h]

@[simp] theorem freeBytes_nil : freeBytes [] = 0 := rfl

theorem mem_map_of_listed {l : List ℕ} {a : ℕ} {cs : List Block}
    (h : l.Perm ((freeBlocks bs).map Block.addr)) (hsub : bs ⊆ cs) (ha : a ∈ l) :
    a ∈ cs.map Block.addr := by
  obtain ⟨b, hb, rfl⟩ := List.mem_map.mp (h.mem_iff.mp ha)
  exact List.mem_map_of_mem (hsub (mem_freeBlocks.mp hb).1)

theorem perm_freeBlocks {l : List ℕ} (h : l.Perm ((freeBlocks (u ++ v)).map Block.addr))
    (hb : b.used = false) : (b.addr :: l).Perm ((freeBlocks (u ++ b :: v)).map Block.addr) := by
  simp only [freeBlocks_append, freeBlocks_cons, hb, Bool.false_eq_true, if_false, List.map_append,
    List.map_cons] at h ⊢
  exact (h.cons b.addr).trans List.perm_middle.symm

theorem perm_usedBlocks (hb : b.used = true) :
    (usedBlocks (u ++ b :: v)).Perm (b :: usedBlocks (u ++ v)) := by
  simp only [usedBlocks_append, usedBlocks_cons, hb, if_true]
  exact List.perm_middle

theorem isolated_cons :
    Isolated (b :: v) ↔ (b.used ∨ ∀ c ∈ v.head?, c.used) ∧ Isolated v := by
  cases v with
  | nil => simp [Isolated]
  | cons c v => simp [Isolated, List.isChain_cons_cons]

theorem isolated_append :
    Isolated (u ++ v) ↔ Isolated u ∧ Isolated v ∧
      ((∀ b ∈ u.getLast?, b.used) ∨ ∀ c ∈ v.head?, c.used) := by
  rw [Isolated, List.isChain_append]
  refine and_congr_right fun _ ↦ and_congr_right fun _ ↦ ?_
  cases u.getLast? <;> cases v.head? <;> simp

theorem Tiles.freeBytes_le {a e : ℕ} (h : Tiles a bs e) :
    a + rtMemheapSize * bs.length + freeBytes bs ≤ e := by
  induction bs generalizing a with
  | nil => simp [h.le]
  | cons b bs ih =>
    have hs := ih h.2
    have hb := h.1
    rw [freeBytes_cons]
    simp only [Block.stop, List.length_cons, rtMemheapSize] at hs ⊢
    split_ifs <;> omega

end Flags

end GiantGecko.Rtos.Memheap
