import IpApps.Lib.ExceptLoops
import Mathlib.Algebra.BigOperators.Group.List.Basic
import Mathlib.Data.List.Infix
import Mathlib.Data.List.Perm.Lattice
import Mathlib.Data.List.ReduceOption
import Mathlib.Tactic.Ring

/-!
# Deletion by swapping with the last element

The order-breaking deletion of a packed array: the last element is moved into the freed
position. Up to a permutation this is the removal of one element, which is all that the
users of such an array rely on.

The second half is about tables: a search in a table with distinct keys, and sums over a
table. When the lists filed under the keys of a table change at one key only, the total
count of an element changes by the difference at that key.
-/

namespace IpApps
namespace SwapErase

open ExceptLoops
open scoped List

variable {α κ : Type}

/-! ## Swap deletion -/

/-- `l` without its element at index `i`, whose place the last element takes. -/
def swapErase (l : List α) (i : ℕ) : List α :=
  match l.getLast? with
  | none => []
  | some z => l.dropLast.set i z

theorem swapErase_append_singleton (ys : List α) (z : α) (i : ℕ) :
    swapErase (ys ++ [z]) i = ys.set i z := by
  simp [swapErase]

theorem length_swapErase (l : List α) (i : ℕ) : (swapErase l i).length = l.length - 1 := by
  rcases List.eq_nil_or_concat l with rfl | ⟨ys, z, rfl⟩
  · rfl
  · rw [List.concat_eq_append, swapErase_append_singleton, List.length_set,
      List.length_append, List.length_singleton, Nat.add_sub_cancel]

theorem map_swapErase {β : Type} (f : α → β) (l : List α) (i : ℕ) :
    (swapErase l i).map f = swapErase (l.map f) i := by
  rcases List.eq_nil_or_concat l with rfl | ⟨ys, z, rfl⟩
  · rfl
  · rw [List.concat_eq_append, swapErase_append_singleton, List.map_append, List.map_singleton,
      swapErase_append_singleton, List.map_set]

theorem mem_of_mem_swapErase {x : α} {l : List α} {i : ℕ} (h : x ∈ swapErase l i) : x ∈ l := by
  rcases List.eq_nil_or_concat l with rfl | ⟨ys, z, rfl⟩
  · exact h
  · rw [List.concat_eq_append, swapErase_append_singleton] at h
    rw [List.concat_eq_append, List.mem_append, List.mem_singleton]
    exact List.mem_or_eq_of_mem_set h

/-- Behind the index the list only gets shorter. -/
theorem prefix_drop_swapErase (l : List α) {i n : ℕ} (hi : i < n) :
    (swapErase l i).drop n <+: l.drop n := by
  rcases List.eq_nil_or_concat l with rfl | ⟨ys, z, rfl⟩
  · exact List.prefix_rfl
  · rw [List.concat_eq_append, swapErase_append_singleton, List.drop_set_of_lt hi]
    exact List.IsPrefix.drop (List.prefix_append ys [z]) n

/-- Swap deletion removes exactly the element at the index. -/
theorem perm_cons_swapErase (l : List α) (i : ℕ) (hi : i < l.length) :
    l.Perm (l[i] :: swapErase l i) := by
  rcases List.eq_nil_or_concat l with rfl | ⟨ys, z, rfl⟩
  · exact absurd hi (Nat.not_lt_zero i)
  · simp only [List.concat_eq_append] at hi ⊢
    rw [swapErase_append_singleton]
    rcases Nat.lt_or_ge i ys.length with hlt | hge
    · -- an inner slot: it receives the last element
      rw [List.getElem_append_left hlt]
      calc ys ++ [z] ~ z :: ys := List.perm_append_singleton z ys
        _ ~ z :: ys[i] :: ys.eraseIdx i :=
            (List.getElem_cons_eraseIdx_perm hlt).symm.cons z
        _ ~ ys[i] :: z :: ys.eraseIdx i := List.Perm.swap _ _ _
        _ ~ ys[i] :: ys.set i z := (List.set_perm_cons_eraseIdx hlt z).symm.cons _
    · -- the last slot: nothing moves
      have hie : i = ys.length := by
        rw [List.length_append, List.length_singleton] at hi
        omega
      subst hie
      rw [List.getElem_concat_length rfl, List.set_eq_of_length_le (Nat.le_refl _)]
      exact List.perm_append_singleton z ys

theorem nodup_swapErase {l : List α} (h : l.Nodup) {i : ℕ} (hi : i < l.length) :
    (swapErase l i).Nodup :=
  ((perm_cons_swapErase l i hi).nodup_iff.mp h).of_cons

/-- Swap deletion commutes with a lookup that succeeds on the whole list. -/
theorem filterMap_swapErase {β : Type} {f : α → Option β} {l : List α}
    (h : ∀ x ∈ l, ∃ y, f x = some y) (i : ℕ) :
    (swapErase l i).filterMap f = swapErase (l.filterMap f) i := by
  have hsome : Function.Injective (List.map (some : β → Option β)) :=
    List.map_injective_iff.mpr (Option.some_injective _)
  apply hsome
  rw [map_swapErase, ← map_eq_map_some_filterMap fun x hx => h x (mem_of_mem_swapErase hx),
    map_swapErase, ← map_eq_map_some_filterMap h]

theorem reduceOption_map_some (xs : List α) : (xs.map some).reduceOption = xs := by
  rw [List.reduceOption, List.filterMap_map]
  exact List.filterMap_some

/-- Deletion in a packed array of slots whose unused slots stand at the end: the slot is
emptied, and the last element, if it is another one, is moved into it. -/
theorem slots_push_eq (qs : List α) (unused : List (Option α)) (i : ℕ)
    (hi : i < qs.length) :
    ∃ server, ((qs.map some ++ unused).set i none)[qs.length - 1]? = some server ∧
      ((((qs.map some ++ unused).set i none).set i none).set (qs.length - 1) none).set i server
        = (swapErase qs i).map some ++ none :: unused := by
  rcases List.eq_nil_or_concat qs with rfl | ⟨ys, z, rfl⟩
  · exact absurd hi (Nat.not_lt_zero i)
  · simp only [List.concat_eq_append] at hi ⊢
    have hlast : (ys ++ [z]).length - 1 = ys.length := by
      rw [List.length_append, List.length_singleton, Nat.add_sub_cancel]
    rw [hlast, swapErase_append_singleton, List.map_append, List.append_assoc]
    rcases Nat.lt_or_ge i ys.length with hlt | hge
    · -- an inner slot: the last pointer is moved into it
      have hl : i < (ys.map some).length := by rwa [List.length_map]
      refine ⟨some z, ?_, ?_⟩
      · rw [List.set_append_left _ _ hl, List.getElem?_append_right (by simp)]
        simp
      · rw [List.set_append_left _ _ hl, List.set_append_left _ _ (by simpa using hl),
          List.set_append_right _ _ (by simp), List.set_append_left _ _ (by simpa using hl)]
        simp [List.map_set]
    · -- the last slot: it stays empty
      have hie : i = ys.length := by
        rw [List.length_append, List.length_singleton] at hi
        omega
      subst hie
      rw [List.set_eq_of_length_le (Nat.le_refl ys.length)]
      refine ⟨none, ?_, ?_⟩
      · rw [List.set_append_right _ _ (by simp), List.getElem?_append_right (by simp)]
        simp
      · rw [List.set_append_right _ _ (by simp), List.set_append_right _ _ (by simp),
          List.set_append_right _ _ (by simp), List.set_append_right _ _ (by simp)]
        simp

/-! ## Tables -/

/-- A search by key in a table whose keys are distinct. -/
theorem find?_fst_eq_some_iff [DecidableEq κ] {l : List (κ × α)}
    (hl : (l.map Prod.fst).Nodup) {k : κ} {a : α} :
    (l.find? (·.1 = k)).map (·.2) = some a ↔ (k, a) ∈ l := by
  rw [Option.map_eq_some_iff]
  constructor
  · intro hfind
    obtain ⟨⟨k', a'⟩, hfind, rfl⟩ := hfind
    have hk : k' = k := by simpa using List.find?_some hfind
    rw [← hk]
    exact List.mem_of_find?_eq_some hfind
  · intro hmem
    have hsome : (l.find? (·.1 = k)).isSome := by
      rw [List.find?_isSome]
      exact ⟨(k, a), hmem, by simp⟩
    obtain ⟨⟨k', a'⟩, hfind⟩ := Option.isSome_iff_exists.mp hsome
    have hk : k' = k := by simpa using List.find?_some hfind
    have hmem' := List.mem_of_find?_eq_some hfind
    rw [hk] at hmem' hfind
    have ha : (k, a') = (k, a) := List.inj_on_of_nodup_map hl hmem' hmem rfl
    exact ⟨(k, a'), hfind, congrArg Prod.snd ha⟩

/-- A list without repetitions whose elements are all equal. -/
theorem length_le_one_of_nodup {l : List α} (hl : l.Nodup)
    (h : ∀ a ∈ l, ∀ b ∈ l, a = b) : l.length ≤ 1 := by
  match l with
  | [] => exact Nat.zero_le 1
  | [_] => exact Nat.le_refl 1
  | a :: b :: l =>
    have hab : a = b := h a (by simp) b (by simp)
    rw [hab] at hl
    simp at hl

/-- A sum over a table whose keys are distinct, after a change at one key. -/
theorem sum_map_update {l : List κ} (hl : l.Nodup) {k : κ} (hk : k ∈ l) {f g : κ → ℕ}
    (h : ∀ j ∈ l, j ≠ k → g j = f j) :
    (l.map g).sum + f k = (l.map f).sum + g k := by
  induction l with
  | nil => exact absurd hk List.not_mem_nil
  | cons a l ih =>
    obtain ⟨ha, hl'⟩ := List.nodup_cons.mp hl
    simp only [List.map_cons, List.sum_cons]
    rcases List.mem_cons.mp hk with rfl | hk'
    · -- the changed key is the head, the tail is unchanged
      have htail : l.map g = l.map f := by
        refine List.map_congr_left fun j hj => h j (List.mem_cons_of_mem _ hj) ?_
        rintro rfl
        exact ha hj
      rw [htail]
      ring
    · have hak : a ≠ k := by
        rintro rfl
        exact ha hk'
      have ih' := ih hl' hk' fun j hj => h j (List.mem_cons_of_mem _ hj)
      rw [h a List.mem_cons_self hak]
      omega

/-- A sum over a table with one entry removed. -/
theorem sum_map_erase [BEq κ] [LawfulBEq κ] {l : List κ} {k : κ} (hk : k ∈ l) (f : κ → ℕ) :
    ((l.erase k).map f).sum + f k = (l.map f).sum := by
  have h := ((List.perm_cons_erase hk).map f).sum_eq
  rw [List.map_cons, List.sum_cons] at h
  omega

end SwapErase
end IpApps
