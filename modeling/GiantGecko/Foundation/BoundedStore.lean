import Mathlib.Data.BitVec
import Mathlib.Logic.Function.Basic

namespace GiantGecko.Foundation.BoundedStore

variable {w : ℕ} {β σ : Type}

structure Store (w : ℕ) (β : Type) where
  next : BitVec w
  mem : BitVec w → β

/-- What does not come before `stop` is counted and not written. -/
def Store.put (stop : BitVec w) (c : β) (o : Store w β) : Store w β where
  next := o.next + 1
  mem := if o.next < stop then Function.update o.mem o.next c else o.mem

def emit (put : β → σ → σ) (text : List β) (o : σ) : σ := text.foldl (fun o c ↦ put c o) o

variable {put : β → σ → σ} {c : β} {text text' : List β} {o : σ}

@[simp] theorem emit_nil : emit put [] o = o := rfl

@[simp] theorem emit_cons : emit put (c :: text) o = emit put text (put c o) := rfl

@[simp] theorem emit_append : emit put (text ++ text') o = emit put text' (emit put text o) :=
  List.foldl_append

def push (c : β) (text : List β) : List β := text ++ [c]

@[simp] theorem emit_push : emit push text' text = text ++ text' := by
  induction text' generalizing text with
  | nil => simp
  | cons c text' ih => simp [ih, push]

/-- Each place before `stop` is written at most once, as long as the text does not come
round to where it began. -/
theorem store_emit (stop base : BitVec w) (mem : BitVec w → β) (text : List β)
    (h : text.length ≤ 2 ^ w) :
    (emit (Store.put stop) text ⟨base, mem⟩).next = base + BitVec.ofNat w text.length ∧
      ∀ a, (emit (Store.put stop) text ⟨base, mem⟩).mem a =
        if a < stop then (text[(a - base).toNat]?).getD (mem a) else mem a := by
  induction text using List.reverseRecOn with
  | nil => simp
  | append_singleton text c ih =>
    rw [List.length_append, List.length_singleton] at h
    obtain ⟨hnext, hmem⟩ := ih (Nat.le_of_succ_le h)
    simp only [emit_append, emit_cons, emit_nil]
    refine ⟨?_, fun a ↦ ?_⟩
    · change (emit (Store.put stop) text ⟨base, mem⟩).next + 1 = _
      rw [hnext, List.length_append, List.length_singleton, BitVec.ofNat_add, BitVec.add_assoc]
      rfl
    change (if (emit (Store.put stop) text ⟨base, mem⟩).next < stop then
      Function.update (emit (Store.put stop) text ⟨base, mem⟩).mem
        (emit (Store.put stop) text ⟨base, mem⟩).next c
      else (emit (Store.put stop) text ⟨base, mem⟩).mem) a = _
    rw [hnext]
    obtain rfl | ha := eq_or_ne a (base + BitVec.ofNat w text.length)
    · have hplace : (base + BitVec.ofNat w text.length - base).toNat = text.length := by
        rw [BitVec.add_comm, BitVec.add_sub_cancel, BitVec.toNat_ofNat, Nat.mod_eq_of_lt h]
      rw [hplace, List.getElem?_concat_length]
      split_ifs
      · rw [Function.update_self, Option.getD_some]
      · rw [hmem, if_neg ‹_›]
    · have hplace : (a - base).toNat ≠ text.length := by
        intro heq
        refine ha ?_
        rw [← heq, BitVec.ofNat_toNat, BitVec.setWidth_eq, BitVec.add_comm, BitVec.sub_add_cancel]
      have hget : (text ++ [c])[(a - base).toNat]? = text[(a - base).toNat]? := by
        obtain hlt | hge := Nat.lt_or_ge (a - base).toNat text.length
        · exact List.getElem?_append_left hlt
        · rw [List.getElem?_eq_none hge, List.getElem?_eq_none]
          rw [List.length_append, List.length_singleton]
          omega
      rw [hget]
      split_ifs with hnext' hstop hstop
      · rw [Function.update_of_ne ha, hmem, if_pos hstop]
      · rw [Function.update_of_ne ha, hmem, if_neg hstop]
      · rw [hmem, if_pos hstop]
      · rw [hmem, if_neg hstop]

end GiantGecko.Foundation.BoundedStore
