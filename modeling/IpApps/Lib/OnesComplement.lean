import Mathlib.Algebra.BigOperators.Group.List.Basic
import Mathlib.Algebra.GroupWithZero.Nat
import Mathlib.Data.Nat.Notation

/-!
# Ones-complement sums

Sums of words below `n` in which a carry out of the top comes back in at the bottom: the
arithmetic modulo `n - 1`, with two zeros. The words of a byte string are read in either byte
order; whether they add up to the last word, a zero, does not depend on it.
-/

namespace IpApps
namespace OnesComplement

/-! ## Addition -/

/-- Addition with the carry brought back. -/
def add (n a b : ℕ) : ℕ := if a + b < n then a + b else a + b + 1 - n

/-- The sum of words. -/
def sum (n : ℕ) (ws : List ℕ) : ℕ := ws.foldr (add n) 0

variable {n a b : ℕ} {ws : List ℕ}

theorem add_lt (ha : a < n) (hb : b < n) : add n a b < n := by
  unfold add
  split <;> omega

theorem add_eq_zero_iff (hn : 0 < n) : add n a b = 0 ↔ a + b = 0 := by
  unfold add
  split
  · rfl
  · omega

theorem add_mod (hn : 0 < n) : add n a b % (n - 1) = (a + b) % (n - 1) := by
  unfold add
  split
  · rfl
  · rename_i hcarry
    have hback : a + b = a + b + 1 - n + (n - 1) := by omega
    conv_rhs => rw [hback, Nat.add_mod_right]

theorem sum_lt (hn : 0 < n) (hws : ∀ w ∈ ws, w < n) : sum n ws < n := by
  induction ws with
  | nil => exact hn
  | cons w ws ih =>
    rw [List.forall_mem_cons] at hws
    exact add_lt hws.1 (ih hws.2)

theorem sum_eq_zero_iff (hn : 0 < n) : sum n ws = 0 ↔ ws.sum = 0 := by
  induction ws with
  | nil => exact Iff.rfl
  | cons w ws ih =>
    have hstep : sum n (w :: ws) = add n w (sum n ws) := rfl
    rw [hstep, add_eq_zero_iff hn, List.sum_cons]
    omega

theorem sum_mod (hn : 0 < n) : sum n ws % (n - 1) = ws.sum % (n - 1) := by
  induction ws with
  | nil => rfl
  | cons w ws ih =>
    have hstep : sum n (w :: ws) = add n w (sum n ws) := rfl
    rw [hstep, add_mod hn, List.sum_cons, Nat.add_mod, ih, ← Nat.add_mod]

/-- The words add up to the last word if they add up to a multiple of it, and are not all zero. -/
theorem sum_eq_last_iff (hn : 1 < n) (hws : ∀ w ∈ ws, w < n) :
    sum n ws = n - 1 ↔ ws.sum % (n - 1) = 0 ∧ ws.sum ≠ 0 := by
  have hlt := sum_lt (Nat.lt_of_succ_lt hn) hws
  have hzero := @sum_eq_zero_iff n ws (Nat.lt_of_succ_lt hn)
  rw [← sum_mod (Nat.lt_of_succ_lt hn), ne_eq, ← hzero]
  constructor
  · intro hlast
    rw [hlast, Nat.mod_self]
    exact ⟨rfl, by omega⟩
  · intro h
    by_contra hother
    rw [Nat.mod_eq_of_lt (by omega)] at h
    exact h.2 h.1

/-- Words that are the same up to multiples of the last word are the same, the two zeros apart. -/
theorem eq_of_mod (ha : a < n) (hb : b < n) (hmod : a % (n - 1) = b % (n - 1))
    (hzero : a = 0 ↔ b = 0) : a = b := by
  have hlast : ∀ w, w < n → w % (n - 1) = if w = n - 1 then 0 else w := by
    intro w hw
    split
    · rename_i h
      rw [h, Nat.mod_self]
    · exact Nat.mod_eq_of_lt (by omega)
  rw [hlast a ha, hlast b hb] at hmod
  split at hmod <;> split at hmod <;> omega

/-- A sum of words is known by their plain sum. -/
theorem sum_congr {ws' : List ℕ} (hn : 0 < n) (hws : ∀ w ∈ ws, w < n) (hws' : ∀ w ∈ ws', w < n)
    (hmod : ws.sum % (n - 1) = ws'.sum % (n - 1)) (hzero : ws.sum = 0 ↔ ws'.sum = 0) :
    sum n ws = sum n ws' := by
  apply eq_of_mod (sum_lt hn hws) (sum_lt hn hws')
  · rw [sum_mod hn, sum_mod hn, hmod]
  · rw [sum_eq_zero_iff hn, sum_eq_zero_iff hn, hzero]

/-! ## Carries brought back at the end -/

/-- Adds the carries of a plain sum to its low word. -/
def foldCarry (n s : ℕ) : ℕ := s / n + s % n

variable {s : ℕ}

theorem foldCarry_mod (hn : 0 < n) : foldCarry n s % (n - 1) = s % (n - 1) := by
  have hparts := Nat.div_add_mod s n
  have hmul : n * (s / n) = (n - 1) * (s / n) + s / n := by
    rw [← Nat.succ_mul, Nat.succ_eq_add_one, Nat.sub_add_cancel hn]
  have hfold : s = foldCarry n s + (n - 1) * (s / n) := by
    unfold foldCarry
    omega
  conv_rhs => rw [hfold, Nat.add_mul_mod_self_left]

theorem foldCarry_eq_zero_iff : foldCarry n s = 0 ↔ s = 0 := by
  unfold foldCarry
  constructor
  · intro h
    rw [Nat.add_eq_zero_iff] at h
    rw [← Nat.div_add_mod s n, h.1, h.2, Nat.mul_zero]
  · intro h
    rw [h, Nat.zero_div, Nat.zero_mod]

/-- Two rounds leave one word, as the carries of a sum of two words are brought back by one. -/
theorem foldCarry_foldCarry_lt (hn : 0 < n) (hs : s < n * n) :
    foldCarry n (foldCarry n s) < n := by
  have hhigh : s / n < n := Nat.div_lt_of_lt_mul hs
  have hlow : s % n < n := Nat.mod_lt s hn
  unfold foldCarry
  generalize s / n = q at *
  generalize s % n = r at *
  by_cases hcarry : q + r < n
  · rw [Nat.div_eq_of_lt hcarry, Nat.mod_eq_of_lt hcarry]
    omega
  · have hone : q + r = q + r - n + n := by omega
    rw [hone, Nat.add_div_right _ hn, Nat.add_mod_right, Nat.div_eq_of_lt (by omega),
      Nat.mod_eq_of_lt (by omega)]
    omega

/-- The carries may be brought back at the end, by two rounds. -/
theorem foldCarry_foldCarry_eq_sum (hn : 0 < n) (hws : ∀ w ∈ ws, w < n) (hs : ws.sum < n * n) :
    foldCarry n (foldCarry n ws.sum) = sum n ws := by
  apply eq_of_mod (foldCarry_foldCarry_lt hn hs) (sum_lt hn hws)
  · rw [foldCarry_mod hn, foldCarry_mod hn, sum_mod hn]
  · rw [foldCarry_eq_zero_iff, foldCarry_eq_zero_iff, sum_eq_zero_iff hn]

/-- The second round, as an addition that drops what leaves the word. -/
theorem add_div_mod_eq_foldCarry (h : foldCarry n s < n) : (s + s / n) % n = foldCarry n s := by
  have hparts := Nat.div_add_mod s n
  have hsum : s + s / n = foldCarry n s + n * (s / n) := by
    unfold foldCarry
    omega
  rw [hsum, Nat.add_mul_mod_self_left, Nat.mod_eq_of_lt h]

/-! ## The words of bytes -/

/-- The 16-bit words of a byte string, the low byte first. A zero byte follows an odd one. -/
def leWords : List UInt8 → List ℕ
  | [] => []
  | [b] => [b.toNat]
  | lo :: hi :: rest => (lo.toNat + 256 * hi.toNat) :: leWords rest

/-- The 16-bit words of a byte string, the high byte first. A zero byte follows an odd one. -/
def beWords : List UInt8 → List ℕ
  | [] => []
  | [b] => [256 * b.toNat]
  | hi :: lo :: rest => (256 * hi.toNat + lo.toNat) :: beWords rest

theorem leWords_lt (bs : List UInt8) : ∀ w ∈ leWords bs, w < 2 ^ 16 := by
  fun_induction leWords bs with
  | case1 => nofun
  | case2 b =>
    have hb := b.toNat_lt
    rw [List.forall_mem_singleton]
    omega
  | case3 lo hi rest ih =>
    have hlo := lo.toNat_lt
    have hhi := hi.toNat_lt
    rw [List.forall_mem_cons]
    exact ⟨by omega, ih⟩

theorem leWords_append {xs : List UInt8} (ys : List UInt8) (heven : xs.length % 2 = 0) :
    leWords (xs ++ ys) = leWords xs ++ leWords ys := by
  fun_induction leWords xs with
  | case1 => rfl
  | case2 b => exact absurd heven (by simp)
  | case3 lo hi rest ih =>
    rw [List.length_cons, List.length_cons] at heven
    rw [List.cons_append, List.cons_append, leWords, ih (by omega), List.cons_append]

theorem beWords_lt (bs : List UInt8) : ∀ w ∈ beWords bs, w < 2 ^ 16 := by
  fun_induction beWords bs with
  | case1 => nofun
  | case2 b =>
    have hb := b.toNat_lt
    rw [List.forall_mem_singleton]
    omega
  | case3 hi lo rest ih =>
    have hhi := hi.toNat_lt
    have hlo := lo.toNat_lt
    rw [List.forall_mem_cons]
    exact ⟨by omega, ih⟩

/-- In the other byte order the sum is 256 times as much, up to multiples of 65535. -/
theorem beWords_sum_mod (bs : List UInt8) :
    (beWords bs).sum % 65535 = 256 * (leWords bs).sum % 65535 := by
  fun_induction beWords bs with
  | case1 => rfl
  | case2 b => rfl
  | case3 hi lo rest ih =>
    rw [leWords, List.sum_cons, List.sum_cons]
    omega

theorem beWords_sum_eq_zero_iff (bs : List UInt8) :
    (beWords bs).sum = 0 ↔ (leWords bs).sum = 0 := by
  fun_induction beWords bs with
  | case1 => rfl
  | case2 b =>
    rw [leWords, List.sum_singleton, List.sum_singleton]
    omega
  | case3 hi lo rest ih =>
    rw [leWords, List.sum_cons, List.sum_cons]
    omega

/-- The words with the high byte first add up to all ones if those with the low byte first add
up to a multiple of 65535, and are not all zero: 256 is a unit. -/
theorem sum_beWords_eq_ones_iff (bs : List UInt8) :
    sum (2 ^ 16) (beWords bs) = 0xffff ↔
      (leWords bs).sum % 65535 = 0 ∧ (leWords bs).sum ≠ 0 := by
  have hswap := beWords_sum_mod bs
  have hzero := beWords_sum_eq_zero_iff bs
  have hlast := sum_eq_last_iff (by decide) (beWords_lt bs)
  rw [show 2 ^ 16 - 1 = 0xffff by rfl] at hlast
  rw [hlast]
  generalize (beWords bs).sum = be at *
  generalize (leWords bs).sum = le at *
  omega

end OnesComplement
end IpApps
