import Mathlib.Data.Int.Notation
import Mathlib.Data.Nat.Notation
import Mathlib.Data.List.Induction

/-!
# Flat memory

A memory gives every integer address a cell. Ranges are read as lists (`slice`) and
overwritten by lists (`store`); `memmove` and `memset` are instances of `store`. The
lemmas say what a store changes, what it leaves alone, and how ranges split.
-/

namespace IpApps
namespace Memory

/-- The cells of a memory, by address. -/
abbrev Mem (β : Type) := ℤ → β

variable {β : Type} (m m' : Mem β)

/-- The `n` cells from address `a` on. -/
def slice (a : ℤ) (n : ℕ) : List β := (List.range n).map fun i : ℕ => m (a + i)

/-- The memory after the cells from address `a` on were overwritten by `xs`. -/
def store (a : ℤ) (xs : List β) : Mem β := fun p =>
  if a ≤ p then xs[(p - a).toNat]?.getD (m p) else m p

/-- Copies `n` cells from `src` to `dst`; the ranges may overlap. -/
def memmove (dst src : ℤ) (n : ℕ) : Mem β := store m dst (slice m src n)

/-- Sets `n` cells from `a` on to `b`. -/
def memset (a : ℤ) (b : β) (n : ℕ) : Mem β := store m a (List.replicate n b)

/-! ## Ranges -/

@[simp] theorem length_slice (a : ℤ) (n : ℕ) : (slice m a n).length = n := by
  simp [slice]

theorem getElem?_slice {a : ℤ} {n i : ℕ} (hi : i < n) : (slice m a n)[i]? = some (m (a + i)) := by
  simp [slice, hi]

/-- A range is determined by its cells. -/
theorem slice_congr {a a' : ℤ} {n : ℕ} (h : ∀ i : ℕ, i < n → m (a + i) = m' (a' + i)) :
    slice m a n = slice m' a' n := by
  unfold slice
  apply List.map_congr_left
  intro i hi
  exact h i (List.mem_range.mp hi)

/-- The cells of a range, read back from the list. -/
theorem eq_of_slice_eq {a : ℤ} {n : ℕ} {xs : List β} (h : slice m a n = xs) {i : ℕ}
    (hi : i < n) : some (m (a + i)) = xs[i]? := by
  rw [← h, getElem?_slice m hi]

/-- Two equal ranges agree cell by cell. -/
theorem cell_eq_of_slice_eq {a a' : ℤ} {n : ℕ} (h : slice m a n = slice m' a' n) {i : ℕ}
    (hi : i < n) : m (a + i) = m' (a' + i) := by
  have hcell := eq_of_slice_eq m h hi
  rw [getElem?_slice m' hi] at hcell
  exact Option.some.inj hcell

@[simp] theorem slice_zero (a : ℤ) : slice m a 0 = [] := rfl

theorem slice_succ (a : ℤ) (n : ℕ) : slice m a (n + 1) = m a :: slice m (a + 1) n := by
  simp only [slice, List.range_succ_eq_map, List.map_cons, List.map_map]
  congr 1
  · simp
  · apply List.map_congr_left
    intro i _
    show m (a + ((i + 1 : ℕ) : ℤ)) = m (a + 1 + i)
    congr 1
    omega

/-- A range splits at any point. -/
theorem slice_add (a : ℤ) (n k : ℕ) :
    slice m a (n + k) = slice m a n ++ slice m (a + n) k := by
  induction n generalizing a with
  | zero => simp
  | succ n ih =>
    rw [show n + 1 + k = n + k + 1 by omega, slice_succ, slice_succ, ih, List.cons_append]
    congr 3
    push_cast
    omega

theorem slice_of_append {a : ℤ} {xs ys : List β}
    (h : slice m a (xs.length + ys.length) = xs ++ ys) :
    slice m a xs.length = xs ∧ slice m (a + xs.length) ys.length = ys := by
  rw [slice_add] at h
  exact List.append_inj h (length_slice m a _)

theorem take_slice (a : ℤ) {n k : ℕ} (hk : k ≤ n) :
    (slice m a n).take k = slice m a k := by
  obtain ⟨j, rfl⟩ : ∃ j, n = k + j := ⟨n - k, by omega⟩
  rw [slice_add, List.take_left' (length_slice m a k)]

/-! ## Stores -/

@[simp] theorem store_nil (a : ℤ) : store m a [] = m := by
  funext p
  simp [store]

theorem store_of_lt {a p : ℤ} (h : p < a) (xs : List β) : store m a xs p = m p := by
  rw [store, if_neg (by omega)]

theorem store_of_ge {a p : ℤ} {xs : List β} (h : a + xs.length ≤ p) : store m a xs p = m p := by
  unfold store
  split
  · rw [List.getElem?_eq_none (by omega)]
    rfl
  · rfl

/-- A store changes nothing outside the range it writes. -/
theorem store_outside {a p : ℤ} {xs : List β} (h : p < a ∨ a + xs.length ≤ p) :
    store m a xs p = m p := by
  cases h with
  | inl h => exact store_of_lt m h xs
  | inr h => exact store_of_ge m h

theorem store_inside {a : ℤ} {xs : List β} {i : ℕ} (hi : i < xs.length) :
    some (store m a xs (a + i)) = xs[i]? := by
  rw [store, if_pos (by omega), show (a + i - a).toNat = i by omega]
  rw [List.getElem?_eq_getElem hi]
  rfl

/-- What a store leaves in its range does not depend on the memory. -/
theorem store_congr {a p : ℤ} {xs : List β} (h : p < a ∨ a + xs.length ≤ p → m p = m' p) :
    store m a xs p = store m' a xs p := by
  by_cases hp : p < a ∨ a + xs.length ≤ p
  · rw [store_outside m hp, store_outside m' hp, h hp]
  · obtain ⟨i, rfl⟩ : ∃ i : ℕ, p = a + i := ⟨(p - a).toNat, by omega⟩
    have hi : i < xs.length := by omega
    exact Option.some.inj ((store_inside m hi).trans (store_inside m' hi).symm)

/-- Reading back the range a store wrote. -/
theorem slice_store_self (a : ℤ) (xs : List β) : slice (store m a xs) a xs.length = xs := by
  apply List.ext_getElem?
  intro i
  by_cases hi : i < xs.length
  · rw [getElem?_slice _ hi, store_inside m hi]
  · rw [List.getElem?_eq_none (by simp; omega), List.getElem?_eq_none (by omega)]

/-- A range disjoint from a store is unchanged. -/
theorem slice_store_outside {a b : ℤ} {n : ℕ} {xs : List β}
    (h : b + n ≤ a ∨ a + xs.length ≤ b) : slice (store m a xs) b n = slice m b n := by
  apply slice_congr
  intro i hi
  apply store_outside
  omega

/-- Reading a part of the range a store wrote. -/
theorem slice_store_part (a : ℤ) (xs ys zs : List β) :
    slice (store m a (xs ++ ys ++ zs)) (a + xs.length) ys.length = ys := by
  have hself := slice_store_self m a (xs ++ ys ++ zs)
  rw [List.append_assoc, List.length_append] at hself
  have hrest := (slice_of_append _ hself).2
  rw [List.length_append] at hrest
  rw [List.append_assoc]
  exact (slice_of_append _ hrest).1

/-- A store that starts inside the range of the one before it and covers its end. -/
theorem store_store_overwrite {a : ℤ} {xs ys : List β} {k : ℕ} (hk : k ≤ xs.length)
    (hend : xs.length ≤ k + ys.length) :
    store (store m a xs) (a + k) ys = store m a (xs.take k ++ ys) := by
  have htake : (xs.take k).length = k := by rw [List.length_take]; omega
  funext p
  by_cases hlow : p < a
  · rw [store_of_lt _ (by omega), store_of_lt _ hlow, store_of_lt _ hlow]
  · obtain ⟨i, rfl⟩ : ∃ i : ℕ, p = a + i := ⟨(p - a).toNat, by omega⟩
    by_cases hik : i < k
    · -- the part the second store leaves
      rw [store_of_lt _ (by omega)]
      have hnew := store_inside m (a := a) (i := i) (show i < (xs.take k ++ ys).length by
        rw [List.length_append]; omega)
      rw [List.getElem?_append_left (by omega), List.getElem?_take_of_lt hik,
        ← store_inside m (a := a) (show i < xs.length by omega)] at hnew
      exact (Option.some.inj hnew).symm
    · by_cases hin : i < k + ys.length
      · have hnew := store_inside m (a := a) (i := i) (show i < (xs.take k ++ ys).length by
          rw [List.length_append]; omega)
        have hold := store_inside (store m a xs) (a := a + k) (i := i - k)
          (show i - k < ys.length by omega)
        rw [show a + k + ((i - k : ℕ) : ℤ) = a + i by omega] at hold
        rw [List.getElem?_append_right (by omega), htake, ← hold] at hnew
        exact (Option.some.inj hnew).symm
      · rw [store_of_ge _ (by omega), store_of_ge _ (by omega),
          store_of_ge _ (by rw [List.length_append]; omega)]

/-- The cell in front of some point of a stored list. -/
theorem store_before (a : ℤ) (xs ys : List β) :
    store m a (xs ++ ys) (a + xs.length - 1) = xs.getLast?.getD (m (a - 1)) := by
  induction xs using List.reverseRecOn with
  | nil =>
    have hlt : a + (([] : List β).length : ℤ) - 1 < a := by
      rw [List.length_nil]
      omega
    rw [store_of_lt m hlt, List.length_nil, List.getLast?_nil, Option.getD_none]
    congr 1
    omega
  | append_singleton xs x _ =>
    have hlt : xs.length < (xs ++ [x] ++ ys).length := by
      simp only [List.length_append, List.length_singleton]
      omega
    have hcell := store_inside m (a := a) hlt
    rw [List.getElem?_append_left (by simp), List.getElem?_concat_length] at hcell
    rw [List.getLast?_concat, Option.getD_some, List.length_append, List.length_singleton,
      show a + ((xs.length + 1 : ℕ) : ℤ) - 1 = a + xs.length by omega]
    exact Option.some.inj hcell

/-- A store right behind another one. -/
theorem store_store_append (a : ℤ) (xs ys : List β) :
    store (store m a xs) (a + xs.length) ys = store m a (xs ++ ys) := by
  rw [store_store_overwrite m (Nat.le_refl _) (by omega), List.take_length]

/-- Storing what is already there changes nothing. -/
theorem store_slice_self (a : ℤ) (n : ℕ) : store m a (slice m a n) = m := by
  funext p
  by_cases hp : p < a ∨ a + n ≤ p
  · exact store_outside m (by simpa using hp)
  · obtain ⟨i, rfl⟩ : ∃ i : ℕ, p = a + i := ⟨(p - a).toNat, by omega⟩
    have hi : i < n := by omega
    have hcell : some (store m a (slice m a n) (a + i)) = (slice m a n)[i]? :=
      store_inside m (by rw [length_slice]; exact hi)
    rw [getElem?_slice m hi] at hcell
    exact Option.some.inj hcell

/-! ## Memories that agree on a range -/

/-- The cells from 0 up to `n` are the same. -/
def AgreeTo (n : ℤ) : Prop := ∀ a, 0 ≤ a → a < n → m a = m' a

variable {m m'} {n n' a : ℤ} {xs : List β}

theorem AgreeTo.mono (h : AgreeTo m m' n) (hle : n' ≤ n) : AgreeTo m m' n' := by
  intro a ha hlt
  exact h a ha (by omega)

/-- A range in the part that agrees reads the same. -/
theorem AgreeTo.slice (h : AgreeTo m m' n) (ha : 0 ≤ a) {k : ℕ} (hk : a + k ≤ n) :
    slice m a k = slice m' a k := by
  apply slice_congr
  intro i hi
  exact h (a + i) (by omega) (by omega)

theorem AgreeTo.store (h : AgreeTo m m' n) (a : ℤ) (xs : List β) :
    AgreeTo (store m a xs) (store m' a xs) n := by
  intro p hp hlt
  exact store_congr m m' fun _ => h p hp hlt

/-- A store that starts in the part that agrees, or right behind it, extends it. -/
theorem AgreeTo.store_extend (h : AgreeTo m m' n) (ha : a ≤ n)
    (hn : n' ≤ max n (a + xs.length)) :
    AgreeTo (Memory.store m a xs) (Memory.store m' a xs) n' := by
  intro p hp hlt
  apply store_congr
  intro hout
  apply h p hp
  omega

/-- The memories agree up to `n`, and behind it they are what `o` and `o'` are. -/
structure Twins (o o' : Mem β) (n : ℤ) (m m' : Mem β) : Prop where
  agree : AgreeTo m m' n
  behind : ∀ a, n ≤ a → m a = o a ∧ m' a = o' a

variable {o o' : Mem β}

theorem Twins.of_agree (h : AgreeTo m m' n) : Twins m m' n m m' := ⟨h, fun _ _ => ⟨rfl, rfl⟩⟩

/-- A store within the part that agrees. -/
theorem Twins.store (h : Twins o o' n m m') (hn : a + xs.length ≤ n) :
    Twins o o' n (Memory.store m a xs) (Memory.store m' a xs) where
  agree := h.agree.store a xs
  behind := by
    intro p hp
    rw [store_of_ge m (by omega), store_of_ge m' (by omega)]
    exact h.behind p hp

end Memory
end IpApps
