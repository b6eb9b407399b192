import Mathlib.Logic.Basic

/-!
# Two runs side by side

Two computations in `Except` run alike if they fail in the same way or succeed with related
values. The rules carry a relation through sequences.
-/

namespace IpApps
namespace TwoRuns

variable {ε α β γ δ : Type}

/-- Both runs fail with the same error, or both succeed with values related by `R`. -/
inductive Alike (R : α → β → Prop) : Except ε α → Except ε β → Prop
  | ok {a : α} {b : β} (h : R a b) : Alike R (.ok a) (.ok b)
  | error (e : ε) : Alike R (.error e) (.error e)

variable {R : α → β → Prop} {S : γ → δ → Prop}

/-- A computation that does not depend on the run. -/
theorem Alike.of_eq (x : Except ε α) : Alike Eq x x := by
  cases x with
  | error e => exact .error e
  | ok a => exact .ok rfl

/-- Sequences run alike if their parts do. -/
theorem Alike.bind {x : Except ε α} {y : Except ε β} {f : α → Except ε γ} {g : β → Except ε δ}
    (h : Alike R x y) (hfg : ∀ a b, R a b → Alike S (f a) (g b)) :
    Alike S (x >>= f) (y >>= g) := by
  cases h with
  | ok hab => exact hfg _ _ hab
  | error e => exact .error e

end TwoRuns
end IpApps
