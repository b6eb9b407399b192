import IpApps.Lib.ExceptLoops

/-!
# Outcomes

What a computation in the error monad may come to: a value with a property, or one of the
errors that are allowed. The rules follow the shape of the computation, so that an
invariant of a loop is carried through its rounds without knowing which of them fails.
-/

namespace IpApps
namespace Outcomes

open ExceptLoops

variable {ε α β : Type}

/-- The value has the property `Q`, or the error is one of `E`. -/
def Meets (E : ε → Prop) (Q : α → Prop) : Except ε α → Prop
  | .ok a => Q a
  | .error e => E e

variable {E E' : ε → Prop} {P Q : α → Prop} {x : Except ε α}

theorem Meets.imp (h : Meets E P x) (hE : ∀ e, E e → E' e) (hQ : ∀ a, P a → Q a) :
    Meets E' Q x := by
  cases x with
  | ok a => exact hQ a h
  | error e => exact hE e h

theorem Meets.mono (h : Meets E P x) (hQ : ∀ a, P a → Q a) : Meets E Q x :=
  h.imp (fun _ he => he) hQ

theorem Meets.bind {f : α → Except ε β} {R : β → Prop} (h : Meets E P x)
    (hf : ∀ a, P a → Meets E R (f a)) : Meets E R (x >>= f) := by
  cases x with
  | ok a => exact hf a h
  | error e => exact h

theorem Meets.ite {c : Prop} [Decidable c] {y : Except ε α} (hx : c → Meets E Q x)
    (hy : ¬c → Meets E Q y) : Meets E Q (if c then x else y) := by
  split
  · exact hx ‹c›
  · exact hy ‹¬c›

/-- The rule for loops: what every round keeps holds in the end. -/
theorem Meets.foldlM {f : α → β → Except ε α} {bs : List β} {a : α}
    (hstep : ∀ a b, P a → b ∈ bs → Meets E P (f a b)) (h : P a) :
    Meets E P (bs.foldlM f a) := by
  induction bs generalizing a with
  | nil => exact h
  | cons b bs ih =>
    rw [List.foldlM_cons]
    refine (hstep a b h List.mem_cons_self).bind fun a' ha' => ?_
    exact ih (fun a b ha hb => hstep a b ha (List.mem_cons_of_mem _ hb)) ha'

end Outcomes
end IpApps
