import Mathlib.Data.List.Nodup
import Mathlib.Logic.Function.Basic

namespace GiantGecko.Foundation.Chain

variable {α : Type} {next next' : α → α} {null p b : α} {l l' : List α}

/-- From `p` through the nodes of a list, each pointing to the one after it,
the last one nowhere. -/
def IsChain (next : α → α) (null : α) : α → List α → Prop
  | p, [] => p = null
  | p, b :: l => (p = b ∧ b ≠ null) ∧ IsChain next null (next b) l

@[simp] theorem chain_nil : IsChain next null p [] ↔ p = null := Iff.rfl

@[simp] theorem chain_cons :
    IsChain next null p (b :: l) ↔ (p = b ∧ b ≠ null) ∧ IsChain next null (next b) l := Iff.rfl

theorem IsChain.congr (h : IsChain next null p l) (hnext : ∀ x ∈ l, next' x = next x) :
    IsChain next' null p l := by
  induction l generalizing p with
  | nil => exact h
  | cons b l ih =>
    refine ⟨h.1, ?_⟩
    rw [hnext b List.mem_cons_self]
    exact ih h.2 fun x hx ↦ hnext x (List.mem_cons_of_mem b hx)

theorem IsChain.exists_cons (h : IsChain next null p l) (hp : p ≠ null) :
    ∃ l', l = p :: l' ∧ IsChain next null (next p) l' := by
  cases l with
  | nil => exact absurd h hp
  | cons b l =>
    obtain ⟨⟨rfl, -⟩, htail⟩ := h
    exact ⟨l, rfl, htail⟩

theorem IsChain.update [DecidableEq α] (h : IsChain next null p l) (hb : b ∉ l) (v : α) :
    IsChain (Function.update next b v) null p l := by
  refine h.congr fun x hx ↦ Function.update_of_ne ?_ v next
  exact fun hxb ↦ hb (hxb ▸ hx)

theorem IsChain.push [DecidableEq α] (h : IsChain next null p l) (hb : b ∉ l) (hnull : b ≠ null) :
    IsChain (Function.update next b p) null b (b :: l) := by
  refine ⟨⟨rfl, hnull⟩, ?_⟩
  rw [Function.update_self]
  exact h.update hb p

variable (next null) in
theorem chain_map_range {n : ℕ} {f : ℕ → α} (hn : 0 < n)
    (hnext : ∀ i, i + 1 < n → next (f i) = f (i + 1)) (hlast : next (f (n - 1)) = null)
    (hnull : ∀ i < n, f i ≠ null) : IsChain next null (f 0) ((List.range n).map f) := by
  induction n generalizing f with
  | zero => omega
  | succ n ih =>
    rw [List.range_succ_eq_map, List.map_cons, List.map_map]
    refine ⟨⟨rfl, hnull 0 hn⟩, ?_⟩
    cases n with
    | zero => exact hlast
    | succ n =>
      rw [hnext 0 (by omega)]
      refine ih (f := f ∘ Nat.succ) (by omega) (fun i hi ↦ hnext (i + 1) (by omega)) hlast ?_
      exact fun i hi ↦ hnull (i + 1) (by omega)

section Nullable

variable {link link' : α → Option α} {q : Option α}

/-- The same with links that may lead nowhere. -/
def Chained (link : α → Option α) : Option α → List α → Prop
  | q, [] => q = none
  | q, b :: l => q = some b ∧ Chained link (link b) l

@[simp] theorem chained_nil : Chained link q [] ↔ q = none := Iff.rfl

@[simp] theorem chained_cons : Chained link q (b :: l) ↔ q = some b ∧ Chained link (link b) l :=
  Iff.rfl

theorem Chained.congr (h : Chained link q l) (hlink : ∀ x ∈ l, link' x = link x) :
    Chained link' q l := by
  induction l generalizing q with
  | nil => exact h
  | cons b l ih =>
    refine ⟨h.1, ?_⟩
    rw [hlink b List.mem_cons_self]
    exact ih h.2 fun x hx ↦ hlink x (List.mem_cons_of_mem b hx)

theorem Chained.exists_cons (h : Chained link (some b) l) :
    ∃ l', l = b :: l' ∧ Chained link (link b) l' := by
  cases l with
  | nil => cases h
  | cons c l =>
    obtain ⟨hc, htail⟩ := h
    cases hc
    exact ⟨l, rfl, htail⟩

theorem Chained.eq_nil (h : Chained link none l) : l = [] := by
  cases l with
  | nil => rfl
  | cons b l => cases h.1

variable [DecidableEq α]

theorem Chained.update (h : Chained link q l) (hb : b ∉ l) (v : Option α) :
    Chained (Function.update link b v) q l := by
  refine h.congr ?_
  intro x hx
  have hne : x ≠ b := fun hxb ↦ hb (hxb ▸ hx)
  rw [Function.update_of_ne hne]

theorem Chained.push (h : Chained link q l) (hb : b ∉ l) :
    Chained (Function.update link b q) (some b) (b :: l) := by
  refine ⟨rfl, ?_⟩
  rw [Function.update_self]
  exact h.update hb q

theorem Chained.concat {c : α} (h : Chained link q (l ++ [b])) (hb : b ∉ l) (hc : c ∉ l ++ [b])
    (hlink : link c = none) : Chained (Function.update link b (some c)) q (l ++ [b, c]) := by
  induction l generalizing q with
  | nil =>
    have hne : c ≠ b := by simpa using hc
    exact ⟨h.1, by rw [Function.update_self], by rw [Function.update_of_ne hne]; exact hlink⟩
  | cons d l ih =>
    rw [List.mem_cons, not_or] at hb
    refine ⟨h.1, ?_⟩
    rw [Function.update_of_ne (Ne.symm hb.1)]
    exact ih h.2 hb.2 fun hmem ↦ hc (List.mem_cons_of_mem d hmem)

end Nullable

end GiantGecko.Foundation.Chain
