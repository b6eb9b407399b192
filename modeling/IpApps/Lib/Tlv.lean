import Mathlib.Data.Nat.Notation
import Mathlib.Data.List.Basic

/-!
# Tag, length, value

A byte format of items that end with a stop byte: an item is a pad byte or an option, which
is a tag, a length octet and as many value bytes. The pad and stop tags stand alone. Two
lists of items with the same bytes are the same list, since `parse` reads them back.
-/

namespace IpApps
namespace Tlv

/-- The two tags that have no length octet. -/
structure Format where
  pad : UInt8
  stop : UInt8
  pad_ne_stop : pad ≠ stop

/-- A complete option. -/
structure Opt (f : Format) where
  tag : UInt8
  body : List UInt8
  tag_ne_pad : tag ≠ f.pad
  tag_ne_stop : tag ≠ f.stop
  length_le : body.length ≤ 255
  deriving DecidableEq

inductive Item (f : Format) where
  | pad
  | opt (o : Opt f)
  deriving DecidableEq

variable {f : Format}

/-! ## The bytes of items -/

/-- The length octet. -/
def Opt.len (o : Opt f) : UInt8 := UInt8.ofNat o.body.length

/-- The number of bytes an option takes. -/
def Opt.size (o : Opt f) : ℕ := o.body.length + 2

def Opt.encode (o : Opt f) : List UInt8 := o.tag :: o.len :: o.body

def Item.encode : Item f → List UInt8
  | .pad => [f.pad]
  | .opt o => o.encode

def encode (items : List (Item f)) : List UInt8 := items.flatMap Item.encode

/-- The options among the items. -/
def options (items : List (Item f)) : List (Opt f) :=
  items.filterMap fun
    | .pad => none
    | .opt o => some o

@[simp] theorem Opt.toNat_len (o : Opt f) : o.len.toNat = o.body.length := by
  have h := o.length_le
  rw [Opt.len, UInt8.toNat_ofNat']
  omega

@[simp] theorem Opt.length_encode (o : Opt f) : o.encode.length = o.size := rfl

@[simp] theorem encode_nil : encode ([] : List (Item f)) = [] := rfl

@[simp] theorem encode_pad (items : List (Item f)) :
    encode (.pad :: items) = f.pad :: encode items := rfl

@[simp] theorem encode_opt (o : Opt f) (items : List (Item f)) :
    encode (.opt o :: items) = o.encode ++ encode items := rfl

@[simp] theorem encode_append (xs ys : List (Item f)) :
    encode (xs ++ ys) = encode xs ++ encode ys := List.flatMap_append

/-- Every item takes at least a byte. -/
theorem length_le_length_encode (items : List (Item f)) :
    items.length ≤ (encode items).length := by
  induction items with
  | nil => exact Nat.le_refl 0
  | cons item items ih =>
    cases item with
    | pad =>
      simp only [encode_pad, List.length_cons]
      omega
    | opt o =>
      simp only [encode_opt, List.length_append, List.length_cons, Opt.length_encode, Opt.size]
      omega

@[simp] theorem options_nil : options ([] : List (Item f)) = [] := rfl

@[simp] theorem options_pad (items : List (Item f)) :
    options (.pad :: items) = options items := rfl

@[simp] theorem options_opt (o : Opt f) (items : List (Item f)) :
    options (.opt o :: items) = o :: options items := rfl

@[simp] theorem options_append (xs ys : List (Item f)) :
    options (xs ++ ys) = options xs ++ options ys := List.filterMap_append

/-- Padding. -/
theorem encode_replicate_pad (n : ℕ) :
    encode (List.replicate n (Item.pad : Item f)) = List.replicate n f.pad := by
  induction n with
  | zero => rfl
  | succ n ih => rw [List.replicate_succ, encode_pad, ih, List.replicate_succ]

theorem options_replicate_pad (n : ℕ) : options (List.replicate n (Item.pad : Item f)) = [] := by
  induction n with
  | zero => rfl
  | succ n ih => rw [List.replicate_succ, options_pad, ih]

/-! ## Reading items back -/

variable (f)

/-- Reads items up to the stop byte, at most as many as the first argument says; `none`
when the bytes run out before the stop byte. -/
def parseAux : ℕ → List UInt8 → Option (List (Item f))
  | 0, _ => none
  | _ + 1, [] => none
  | n + 1, tag :: rest =>
    if hstop : tag = f.stop then some []
    else if hpad : tag = f.pad then (parseAux n rest).map (.pad :: ·)
    else
      match rest with
      | [] => none
      | len :: rest =>
        if rest.length < len.toNat then none
        else
          (parseAux n (rest.drop len.toNat)).map
            (.opt
              { tag := tag, body := rest.take len.toNat, tag_ne_pad := hpad
                tag_ne_stop := hstop
                length_le := by
                  have := len.toNat_lt
                  simp only [List.length_take]
                  omega } :: ·)

/-- The items up to the stop byte. -/
def parse (xs : List UInt8) : Option (List (Item f)) := parseAux f xs.length xs

/-- Every item takes at least a byte, so the bound on their number does not matter. -/
theorem parseAux_eq_parseAux {n k : ℕ} {xs : List UInt8} (hn : xs.length ≤ n)
    (hk : xs.length ≤ k) : parseAux f n xs = parseAux f k xs := by
  induction n generalizing k xs with
  | zero =>
    have hxs : xs = [] := List.eq_nil_of_length_eq_zero (by omega)
    subst hxs
    cases k <;> rfl
  | succ n ih =>
    cases xs with
    | nil => cases k <;> rfl
    | cons tag rest =>
      simp only [List.length_cons] at hn hk
      obtain ⟨k, rfl⟩ : ∃ j, k = j + 1 := ⟨k - 1, by omega⟩
      unfold parseAux
      split
      · rfl
      · split
        · rw [ih (k := k) (by omega) (by omega)]
        · cases rest with
          | nil => rfl
          | cons len rest =>
            simp only [List.length_cons] at hn hk
            simp only
            rw [ih (k := k) (by simp only [List.length_drop]; omega)
              (by simp only [List.length_drop]; omega)]

theorem parse_stop (rest : List UInt8) : parse f (f.stop :: rest) = some [] := by
  rw [parse, List.length_cons, parseAux, dif_pos rfl]

theorem parse_pad (rest : List UInt8) :
    parse f (f.pad :: rest) = (parse f rest).map (.pad :: ·) := by
  rw [parse, List.length_cons, parseAux, dif_neg f.pad_ne_stop, dif_pos rfl, parse]

variable {f}

theorem parse_opt (o : Opt f) (rest : List UInt8) :
    parse f (o.encode ++ rest) = (parse f rest).map (.opt o :: ·) := by
  rw [Opt.encode, List.cons_append, List.cons_append, parse, List.length_cons, parseAux,
    dif_neg o.tag_ne_stop, dif_neg o.tag_ne_pad]
  simp only [Opt.toNat_len, List.length_append, List.drop_left, List.take_left]
  rw [if_neg (by omega), parse]
  rw [parseAux_eq_parseAux f (by simp; omega) (Nat.le_refl rest.length)]

/-- The items in front of other bytes are read back. -/
theorem parse_encode_append (items : List (Item f)) (rest : List UInt8) :
    parse f (encode items ++ rest) = (parse f rest).map (items ++ ·) := by
  induction items with
  | nil => simp
  | cons item items ih =>
    cases item with
    | pad =>
      rw [encode_pad, List.cons_append, parse_pad, ih, Option.map_map]
      rfl
    | opt o =>
      rw [encode_opt, List.append_assoc, parse_opt, ih, Option.map_map]
      rfl

/-- Round trip: what was encoded before a stop byte is read back. -/
theorem parse_encode (items : List (Item f)) (rest : List UInt8) :
    parse f (encode items ++ f.stop :: rest) = some items := by
  rw [parse_encode_append, parse_stop, Option.map_some, List.append_nil]

/-- Without a stop byte the items have no end. -/
theorem parse_encode_eq_none (items : List (Item f)) : parse f (encode items) = none := by
  have h := parse_encode_append items []
  rw [List.append_nil] at h
  rw [h]
  rfl

/-- Two lists of items with the same bytes before a stop byte are the same. -/
theorem encode_stop_injective {xs ys : List (Item f)} {r r' : List UInt8}
    (h : encode xs ++ f.stop :: r = encode ys ++ f.stop :: r') : xs = ys := by
  have hx := parse_encode xs r
  rw [h, parse_encode ys r'] at hx
  exact (Option.some.inj hx).symm

/-- Bytes between items and a last stop byte are items themselves if the whole is. -/
theorem encode_append_stop {xs zs : List (Item f)} {bs : List UInt8}
    (h : encode xs ++ (bs ++ [f.stop]) = encode zs ++ [f.stop]) :
    ∃ ys : List (Item f), bs = encode ys := by
  have hz := parse_encode zs []
  rw [← h, parse_encode_append] at hz
  cases hys : parse f (bs ++ [f.stop]) with
  | none =>
    rw [hys] at hz
    cases hz
  | some ys =>
    rw [hys] at hz
    refine ⟨ys, ?_⟩
    rw [← Option.some.inj hz, encode_append, List.append_assoc, List.append_cancel_left_eq,
      List.append_cancel_right_eq] at h
    exact h

end Tlv
end IpApps
