import IpApps.Lib.ExceptLoops
import Mathlib.Algebra.Group.Nat.Defs
import Mathlib.Data.Nat.Notation

/-!
# Lines that are put together with `snprintf`

A line is written into one array by calls of `len += snprintf(target+len, SIZE-len, ..)`. A call
returns the length of all it had to write, so `len` is the length of the line also where the array
is too short for it; the next call then writes behind the array.
-/

namespace IpApps
namespace Snprintf

open ExceptLoops

/-- What leaves a run without a meaning in C. -/
inductive Undefined
  | nullPointer
  /-- An address behind the end of an array or of another object. -/
  | outOfBounds
  /-- The result of an `int` operation that is none. -/
  | intOverflow
  deriving DecidableEq, Repr

/-- `INT_MAX`. -/
def intMax : ℕ := 2 ^ 31 - 1

/-- The array, with the characters in front of the NUL, and `len`. -/
structure Buffer (size : ℕ) where
  text : List Char
  len : ℕ
  /-- While the line fits, the NUL stands at `len`. -/
  text_length : len < size → text.length = len
  deriving DecidableEq, Repr

namespace Buffer

variable {size : ℕ}

/-- Before the first call. -/
def empty : Buffer size := ⟨[], 0, fun _ => rfl⟩

/-- One call, with what its format makes of its arguments. -/
def append (b : Buffer size) (piece : List Char) : Except Undefined (Buffer size) :=
  if size < b.len then .error .outOfBounds
  else if intMax < b.len + piece.length then .error .intOverflow
  else
    -- one character less than there is room for, and nothing without room
    .ok ⟨b.text ++ piece.take (size - b.len - 1), b.len + piece.length, fun h => by
      have hlen := b.text_length (by omega)
      rw [List.length_append, List.length_take, hlen]
      omega⟩

/-- A call for a string that there may be. -/
def appendSome (b : Buffer size) : Option (List Char) → Except Undefined (Buffer size)
  | some piece => b.append piece
  | none => .ok b

theorem append_of_lt (hsize : size ≤ intMax + 1) (b : Buffer size) (piece : List Char)
    (h : b.len + piece.length < size) :
    ∃ b', b.append piece = .ok b' ∧ b'.text = b.text ++ piece ∧
      b'.len = b.len + piece.length := by
  rw [append, if_neg (by omega), if_neg (by omega)]
  refine ⟨_, rfl, ?_, rfl⟩
  show b.text ++ piece.take (size - b.len - 1) = b.text ++ piece
  rw [List.take_of_length_le (by omega)]

/-- The length counts what was cut, too. -/
theorem len_of_append {b b' : Buffer size} {piece : List Char} (h : b.append piece = .ok b') :
    b'.len = b.len + piece.length := by
  unfold append at h
  split at h
  · exact absurd h nofun
  split at h
  · exact absurd h nofun
  · cases h
    rfl

/-- The calls for the pieces of a line. -/
def appendAll (b : Buffer size) (pieces : List (List Char)) : Except Undefined (Buffer size) :=
  pieces.foldlM append b

theorem appendAll_cons (b : Buffer size) (piece : List Char) (pieces : List (List Char)) :
    b.appendAll (piece :: pieces) = b.append piece >>= fun b => b.appendAll pieces := rfl

theorem appendAll_append (b : Buffer size) (pieces pieces' : List (List Char)) :
    b.appendAll (pieces ++ pieces') = b.appendAll pieces >>= fun b => b.appendAll pieces' :=
  List.foldlM_append

theorem appendAll_nil (b : Buffer size) : b.appendAll [] = pure b := rfl

theorem appendAll_toList (b : Buffer size) (piece : Option (List Char)) :
    b.appendAll piece.toList = b.appendSome piece := by
  cases piece with
  | none => rfl
  | some piece =>
    rw [Option.toList, appendAll_cons]
    exact bind_pure _

/-- A call that is made under a condition. -/
theorem appendAll_ite (b : Buffer size) (c : Prop) [Decidable c]
    (pieces pieces' : List (List Char)) :
    b.appendAll (if c then pieces else pieces')
      = if c then b.appendAll pieces else b.appendAll pieces' :=
  apply_ite _ c pieces pieces'

theorem appendAll_of_lt (hsize : size ≤ intMax + 1) (b : Buffer size) (pieces : List (List Char))
    (h : b.len + pieces.flatten.length < size) :
    ∃ b', b.appendAll pieces = .ok b' ∧ b'.text = b.text ++ pieces.flatten ∧
      b'.len = b.len + pieces.flatten.length := by
  induction pieces generalizing b with
  | nil => exact ⟨b, rfl, by simp, by simp⟩
  | cons piece pieces ih =>
    rw [List.flatten_cons, List.length_append] at h
    have ⟨b', hb', htext, hlen⟩ := append_of_lt hsize b piece (by omega)
    have ⟨b'', hb'', htext', hlen'⟩ := ih b' (by omega)
    refine ⟨b'', ?_, ?_, ?_⟩
    · rw [appendAll_cons, hb', ok_bind, hb'']
    · rw [htext', htext, List.flatten_cons, List.append_assoc]
    · rw [hlen', hlen, List.flatten_cons, List.length_append, Nat.add_assoc]

theorem len_of_appendAll {b b' : Buffer size} {pieces : List (List Char)}
    (h : b.appendAll pieces = .ok b') : b'.len = b.len + pieces.flatten.length := by
  induction pieces generalizing b with
  | nil =>
    cases h
    rfl
  | cons piece pieces ih =>
    rw [appendAll_cons] at h
    have ⟨c, hc, hrest⟩ := bind_eq_ok h
    rw [ih hrest, len_of_append hc, List.flatten_cons, List.length_append, Nat.add_assoc]

/-- The array holds the line if and only if the line is shorter. -/
theorem appendAll_fits_iff (hsize : size ≤ intMax + 1) {pieces : List (List Char)}
    {P : List Char → Prop} :
    (∃ b : Buffer size, empty.appendAll pieces = .ok b ∧ b.len < size ∧ P b.text)
      ↔ pieces.flatten.length < size ∧ P pieces.flatten := by
  have hfits : pieces.flatten.length < size → ∃ b : Buffer size,
      empty.appendAll pieces = .ok b ∧ b.text = pieces.flatten ∧ b.len = pieces.flatten.length := by
    intro h
    have ⟨b, hb, htext, hlen⟩ := appendAll_of_lt hsize empty pieces
      ((Nat.zero_add _).symm ▸ h)
    exact ⟨b, hb, htext, hlen.trans (Nat.zero_add _)⟩
  constructor
  · rintro ⟨b, hb, hlen, htext⟩
    rw [len_of_appendAll hb] at hlen
    have hshort : pieces.flatten.length < size := by
      have hempty : (empty : Buffer size).len = 0 := rfl
      omega
    have ⟨b', hb', htext', _⟩ := hfits hshort
    rw [hb] at hb'
    cases hb'
    exact ⟨hshort, htext' ▸ htext⟩
  · rintro ⟨hshort, hP⟩
    have ⟨b, hb, htext, hlen⟩ := hfits hshort
    exact ⟨b, hb, hlen ▸ hshort, htext.symm ▸ hP⟩

end Buffer

end Snprintf
end IpApps
