import Mathlib.Data.Nat.Notation
import Mathlib.Data.List.Basic
import Mathlib.Tactic.Ring

/-!
# Integers as bytes

The value of a list of bytes and the bytes of a value, with the low byte first (`le`) or
last (`be`).
-/

namespace IpApps
namespace Endian

/-- The value of bytes with the low byte first. -/
def leVal : List UInt8 → ℕ
  | [] => 0
  | b :: bs => b.toNat + 256 * leVal bs

/-- The value of bytes with the low byte last. -/
def beVal (bs : List UInt8) : ℕ := leVal bs.reverse

/-- The `n` low bytes of a value, low byte first. -/
def leBytes : ℕ → ℕ → List UInt8
  | 0, _ => []
  | n + 1, v => UInt8.ofNat v :: leBytes n (v / 256)

/-- The `n` low bytes of a value, low byte last. -/
def beBytes (n v : ℕ) : List UInt8 := (leBytes n v).reverse

@[simp] theorem length_leBytes (n v : ℕ) : (leBytes n v).length = n := by
  induction n generalizing v with
  | zero => rfl
  | succ n ih => rw [leBytes, List.length_cons, ih]

@[simp] theorem length_beBytes (n v : ℕ) : (beBytes n v).length = n := by
  rw [beBytes, List.length_reverse, length_leBytes]

/-- The value of the low bytes of a value. -/
theorem leVal_leBytes_mod (n v : ℕ) : leVal (leBytes n v) = v % 256 ^ n := by
  induction n generalizing v with
  | zero => rw [pow_zero, Nat.mod_one, leBytes, leVal]
  | succ n ih =>
    have hlow : (UInt8.ofNat v).toNat = v % 256 := UInt8.toNat_ofNat'
    rw [leBytes, leVal, ih, hlow, pow_succ', Nat.mod_mul]

theorem beVal_beBytes_mod (n v : ℕ) : beVal (beBytes n v) = v % 256 ^ n := by
  rw [beVal, beBytes, List.reverse_reverse, leVal_leBytes_mod]

/-- Round trip: the value of the bytes of a value that fits. -/
theorem leVal_leBytes {n v : ℕ} (hv : v < 256 ^ n) : leVal (leBytes n v) = v := by
  rw [leVal_leBytes_mod, Nat.mod_eq_of_lt hv]

theorem beVal_beBytes {n v : ℕ} (hv : v < 256 ^ n) : beVal (beBytes n v) = v := by
  rw [beVal_beBytes_mod, Nat.mod_eq_of_lt hv]

theorem leVal_lt (bs : List UInt8) : leVal bs < 256 ^ bs.length := by
  induction bs with
  | nil => decide
  | cons b bs ih =>
    have hb := b.toNat_lt
    rw [leVal, List.length_cons, pow_succ]
    omega

theorem beVal_lt (bs : List UInt8) : beVal bs < 256 ^ bs.length := by
  have h := leVal_lt bs.reverse
  rwa [List.length_reverse] at h

end Endian
end IpApps
