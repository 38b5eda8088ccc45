import Mathlib.Data.List.Basic

namespace GiantGecko.Foundation.Transition

variable {σ ε : Type} (step : σ → ε → σ)

/-- Every event of a run meets a condition, which may look at the state
the event finds. -/
def Along (C : σ → ε → Prop) : σ → List ε → Prop
  | _, [] => True
  | s, e :: es => C s e ∧ Along C (step s e) es

variable {step} {C P : σ → ε → Prop} {I : σ → Prop}

@[simp] theorem along_nil (s : σ) : Along step C s [] := trivial

@[simp] theorem along_cons (s : σ) (e : ε) (es : List ε) :
    Along step C s (e :: es) ↔ C s e ∧ Along step C (step s e) es := Iff.rfl

instance [h : ∀ s e, Decidable (C s e)] : (s : σ) → (es : List ε) → Decidable (Along step C s es)
  | _, [] => isTrue trivial
  | s, e :: es =>
    have := instDecidableAlong (step s e) es
    inferInstanceAs (Decidable (C s e ∧ Along step C (step s e) es))

theorem along_append (s : σ) (es fs : List ε) :
    Along step C s (es ++ fs) ↔ Along step C s es ∧ Along step C (es.foldl step s) fs := by
  induction es generalizing s with
  | nil => simp
  | cons e es ih => simp only [List.cons_append, along_cons, List.foldl_cons, ih, and_assoc]

theorem along_and (s : σ) (es : List ε) :
    Along step (fun s e ↦ C s e ∧ P s e) s es ↔ Along step C s es ∧ Along step P s es := by
  induction es generalizing s with
  | nil => simp
  | cons e es ih => simp only [along_cons, ih, and_and_and_comm]

theorem along_of_forall (h : ∀ s e, C s e) (s : σ) (es : List ε) : Along step C s es := by
  induction es generalizing s with
  | nil => trivial
  | cons e es ih => exact ⟨h s e, ih _⟩

theorem along_const {Q : ε → Prop} (s : σ) (es : List ε) :
    Along step (fun _ e ↦ Q e) s es ↔ ∀ e ∈ es, Q e := by
  induction es generalizing s with
  | nil => simp
  | cons e es ih => simp only [along_cons, ih, List.forall_mem_cons]

/-- What one event preserves under the condition, a run that meets the
condition preserves. -/
theorem run_invariant (hstep : ∀ s e, I s → C s e → I (step s e)) {s : σ} (hs : I s)
    {es : List ε} (hes : Along step C s es) : I (es.foldl step s) := by
  induction es generalizing s with
  | nil => exact hs
  | cons e es ih => exact ih (hstep s e hs hes.1) hes.2

theorem reachable_invariant (hstep : ∀ s e, I s → I (step s e)) {s : σ} (hs : I s)
    (es : List ε) : I (es.foldl step s) :=
  run_invariant (C := fun _ _ ↦ True) (fun s e h _ ↦ hstep s e h) hs
    (along_of_forall (fun _ _ ↦ trivial) s es)

theorem along_of_invariant (hstep : ∀ s e, I s → C s e → I (step s e))
    (hP : ∀ s e, I s → C s e → P s e) {s : σ} (hs : I s) {es : List ε}
    (hes : Along step C s es) : Along step P s es := by
  induction es generalizing s with
  | nil => trivial
  | cons e es ih => exact ⟨hP s e hs hes.1, ih (hstep s e hs hes.1) hes.2⟩

/-- Two conditions that agree while the invariant holds, one of which keeps
it, hold along the same runs. -/
theorem along_congr (hstep : ∀ s e, I s → C s e → I (step s e))
    (hPC : ∀ s e, I s → (P s e ↔ C s e)) {s : σ} (hs : I s) (es : List ε) :
    Along step P s es ↔ Along step C s es := by
  induction es generalizing s with
  | nil => exact Iff.rfl
  | cons e es ih =>
    simp only [along_cons, hPC s e hs]
    exact and_congr_right fun hc ↦ ih (hstep s e hs hc)

def trace {ω : Type} (step : σ → ε → σ) (out : σ → ε → List ω) : σ → List ε → List ω
  | _, [] => []
  | s, e :: es => out s e ++ trace step out (step s e) es

/-- A relation kept when each event is answered by the operations it emits is
kept by the run and the operations of its trace. -/
theorem simulation_run {τ ω : Type} {out : σ → ε → List ω} {op : τ → ω → τ} {R : σ → τ → Prop}
    (hstep : ∀ s t e, R s t → R (step s e) ((out s e).foldl op t)) {s : σ} {t : τ} (h : R s t)
    (es : List ε) : R (es.foldl step s) ((trace step out s es).foldl op t) := by
  induction es generalizing s t with
  | nil => exact h
  | cons e es ih =>
    rw [trace, List.foldl_append]
    exact ih (hstep s t e h)

end GiantGecko.Foundation.Transition
