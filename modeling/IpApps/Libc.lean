import IpApps.Lib.Decide
import Mathlib.Algebra.Group.Int.Defs
import Mathlib.Algebra.Group.Nat.Defs
import Mathlib.Data.Nat.Notation
import Mathlib.Data.Int.Notation

/-!
# The C library functions the daemon decides with

`strncmp`, which the configuration handlers use with the length of one argument as the
bound, `inet_aton`, which turns the address strings of a database row into the addresses
of the server cache, and `atoi`, which reads an interval. Strings are C strings: the
characters before the NUL.
-/

namespace IpApps

/-- A C string, without its terminator. -/
abbrev CString := List Char

instance : LawfulBEq CString := inferInstance

/-- An IPv4 address as `s_addr` holds it on the little-endian host: the first octet of
the dotted form is the low byte. -/
abbrev IpAddress := UInt32

namespace Libc

/-! ## `strncmp` -/

/-- Compares at most `n` characters; the terminator sorts before every character. -/
def strncmp : CString → CString → ℕ → ℤ
  | _, _, 0 => 0
  | [], [], _ + 1 => 0
  | [], _ :: _, _ + 1 => -1
  | _ :: _, [], _ + 1 => 1
  | c :: s, d :: t, n + 1 => if c = d then strncmp s t n else if c < d then -1 else 1

/-- Bounded by the length of its first argument, `strncmp` only tests a prefix. -/
theorem strncmp_length_eq_zero_iff (s t : CString) : strncmp s t s.length = 0 ↔ s <+: t := by
  induction s generalizing t with
  | nil => simp [strncmp]
  | cons c s ih =>
    cases t with
    | nil => simp [strncmp]
    | cons d t =>
      rw [List.length_cons, strncmp, List.cons_prefix_cons]
      by_cases hcd : c = d
      · rw [if_pos hcd, ih]
        simp [hcd]
      · rw [if_neg hcd]
        split <;> simp [hcd]

/-- `strncmp` tells whether two strings have the same first characters. -/
theorem strncmp_eq_zero_iff (s t : CString) (n : ℕ) :
    strncmp s t n = 0 ↔ s.take n = t.take n := by
  induction n generalizing s t with
  | zero => simp [strncmp]
  | succ n ih =>
    cases s with
    | nil => cases t <;> simp [strncmp]
    | cons c s =>
      cases t with
      | nil => simp [strncmp]
      | cons d t =>
        rw [strncmp, List.take_succ_cons, List.take_succ_cons]
        by_cases hcd : c = d
        · rw [if_pos hcd, ih, hcd, List.cons_inj_right]
        · rw [if_neg hcd]
          split <;> simp [hcd]

/-! ## `inet_aton` -/

/-- The value of a digit in the bases `strtoul` knows. -/
def digitValue (c : Char) : Option ℕ :=
  if '0' ≤ c ∧ c ≤ '9' then some (c.toNat - '0'.toNat)
  else if 'a' ≤ c ∧ c ≤ 'f' then some (c.toNat - 'a'.toNat + 10)
  else if 'A' ≤ c ∧ c ≤ 'F' then some (c.toNat - 'A'.toNat + 10)
  else none

/-- Reads the digits of one base, returning their value and the unread rest. -/
def takeDigits (base acc : ℕ) : CString → ℕ × CString
  | [] => (acc, [])
  | c :: cs =>
    match digitValue c with
    | some d => if d < base then takeDigits base (acc * base + d) cs else (acc, c :: cs)
    | none => (acc, c :: cs)

/-- `strtoul` with base 0 on a string that starts with a decimal digit: `0x` selects
hexadecimal, another leading `0` octal. -/
def strtoul (s : CString) : ℕ × CString :=
  match s with
  | '0' :: x :: d :: cs =>
    if (x = 'x' ∨ x = 'X') ∧ (digitValue d).isSome then takeDigits 16 0 (d :: cs)
    else takeDigits 8 0 s
  | '0' :: _ => takeDigits 8 0 s
  | _ => takeDigits 10 0 s

def isDigit (c : Char) : Bool := '0' ≤ c ∧ c ≤ '9'

def isSpace (c : Char) : Bool :=
  c = ' ' ∨ c = '\t' ∨ c = '\n' ∨ c = '\r' ∨ c.toNat = 11 ∨ c.toNat = 12

/-- `htonl` as the little-endian host stores it: the four octets in reverse. -/
def htonl (v : ℕ) : ℕ :=
  v / 2 ^ 24 % 256 + v / 2 ^ 16 % 256 * 2 ^ 8 + v / 2 ^ 8 % 256 * 2 ^ 16 + v % 256 * 2 ^ 24

/-- The largest value of the last part of a dotted address, by the number of parts
before it. -/
def lastPartMax : ℕ → ℕ
  | 0 => 0xffffffff
  | 1 => 0xffffff
  | 2 => 0xffff
  | _ => 0xff

/-- The parts of a dotted address, `res` holding the octets read so far. At most four
parts are read, `more` being the number still allowed. -/
def inetAtonParts : ℕ → List ℕ → CString → Option IpAddress
  | 0, _, _ => none
  | more + 1, res, s =>
    match s with
    | [] => none
    | c :: _ =>
      if !isDigit c then none
      else
        let (val, rest) := strtoul s
        if 0xffffffff < val then none
        else
          match rest with
          | '.' :: rest' =>
            if 2 < res.length ∨ 0xff < val then none
            else inetAtonParts more (res ++ [val]) rest'
          | _ =>
            if rest.head?.any (!isSpace ·) then none
            else if lastPartMax res.length < val then none
            else
              some (UInt32.ofNat (res.foldr (fun b acc => b + 256 * acc) 0 + htonl val))

/-- The address a string denotes, `none` where the library call returns 0. -/
def inetAton (s : CString) : Option IpAddress :=
  inetAtonParts 4 [] s

example : inetAton "10.0.0.1".toList = some 0x0100000a := by decide
example : inetAton "012.1".toList = inetAton "10.0.0.1".toList := by decide

/-! ## `atoi` -/

/-- `atoi`: white space, a sign and decimal digits. The value is that of `strtol`, which
stops at the bounds of a `long`, cut to an `int`. -/
def atoi (s : CString) : Int32 :=
  match s.dropWhile isSpace with
  | '-' :: digits => Int32.ofInt (max (-((takeDigits 10 0 digits).1 : ℤ)) (-2 ^ 63))
  | '+' :: digits => Int32.ofInt (min ((takeDigits 10 0 digits).1 : ℤ) (2 ^ 63 - 1))
  | digits => Int32.ofInt (min ((takeDigits 10 0 digits).1 : ℤ) (2 ^ 63 - 1))

example : atoi " -12ms".toList = -12 := by decide

end Libc
end IpApps
