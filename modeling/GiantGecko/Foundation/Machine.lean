import Mathlib.Logic.Relation
import Mathlib.Data.Nat.Notation

namespace GiantGecko.Foundation.Machine

variable {σ : Type} {step : σ → Option σ} {halted : σ → Bool} {μ : σ → ℕ} {s t u : σ} {n : ℕ}

def Reaches (step : σ → Option σ) : σ → σ → Prop := Relation.ReflTransGen fun s t ↦ step s = some t

theorem Reaches.refl (s : σ) : Reaches step s s := Relation.ReflTransGen.refl

theorem Reaches.single (h : step s = some t) : Reaches step s t := Relation.ReflTransGen.single h

theorem Reaches.trans (h : Reaches step s t) (h' : Reaches step t u) : Reaches step s u :=
  Relation.ReflTransGen.trans h h'

theorem Reaches.head (h : step s = some t) (h' : Reaches step t u) : Reaches step s u :=
  Relation.ReflTransGen.head h h'

theorem Reaches.tail (h : Reaches step s t) (h' : step t = some u) : Reaches step s u :=
  Relation.ReflTransGen.tail h h'

/-- The steps until the machine halts, none when it gets stuck or the turns are too few. -/
def loop (halted : σ → Bool) (step : σ → Option σ) : ℕ → σ → Option σ
  | 0, s => if halted s then some s else none
  | turns + 1, s => if halted s then some s else (step s).bind (loop halted step turns)

end GiantGecko.Foundation.Machine
