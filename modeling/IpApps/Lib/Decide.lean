import Mathlib.Data.Multiset.Defs

/-!
# Deciding bounded quantifiers

A quantifier over the elements of a list or a multiset is decided on these elements, also
where their type is finite: otherwise `decide` would go through all addresses to see that
the two of a list are not 0.
-/

namespace IpApps

variable {α : Type} {p : α → Prop} [DecidablePred p]

instance (priority := 2000) decidableForallMemList (l : List α) : Decidable (∀ x ∈ l, p x) :=
  List.decidableBAll p l

instance (priority := 2000) decidableExistsMemList (l : List α) : Decidable (∃ x ∈ l, p x) :=
  List.decidableBEx p l

instance (priority := 2000) decidableForallMemMultiset (m : Multiset α) :
    Decidable (∀ x ∈ m, p x) :=
  Multiset.decidableForallMultiset

end IpApps
