import IpApps.Udpfwd.OptionSearch

/-!
# Options in the file and the sname field

A message may say by an overload option that its file field, its sname field or both hold
options too. An option is then to be searched in the options field, the file field and the sname
field, in this order.

`dhcpPickupOpt` searches one field: an option of the options field is lost behind an overload
option, and for both fields the sname field is not searched.
-/

namespace IpApps
namespace Udpfwd

open Memory

/-! ## A field -/

/-- The items of a field, up to the option with the tag, END or the end of the field. -/
structure FieldWalk (pkt : Packet) (tag : UInt8) (start stop : ℤ) where
  items : List ℤ
  last : ℤ
  passed : PassedOver pkt stop tag start items last

namespace FieldWalk

variable {pkt : Packet} {tag : UInt8} {start stop : ℤ} (w : FieldWalk pkt tag start stop)

/-- The first option of the field with the tag. -/
def first : Option ℤ := found pkt stop tag w.last

/-- The value of the overload option the items have, the last one if there are several. -/
def overload : UInt8 := lastOverload pkt 0 w.items

/-- The lengths of the options are the same as a `char`. -/
def Short : Prop := ∀ p ∈ w.items, ShortLength pkt p

variable {w}

theorem scan (h : w.Short) {n : ℕ} (hn : w.items.length < n) :
    dhcpScanOpt pkt stop tag n start 0 = some (w.first, w.overload) :=
  dhcpScanOpt_passed w.passed h 0 hn

/-- The walk goes forward. -/
theorem start_le_last : start ≤ w.last := by
  have hle : ∀ {p q : ℤ} {ps : List ℤ}, PassedOver pkt stop tag p ps q → p ≤ q := by
    intro p q ps h
    induction h with
    | done => exact Int.le_refl _
    | item hpass rest ih => omega
  exact hle w.passed

/-- What is found lies in the field. -/
theorem first_bounds {p : ℤ} (h : w.first = some p) : start ≤ p ∧ p < stop := by
  unfold first found at h
  split at h
  · rename_i hfound
    obtain rfl := Option.some.inj h
    exact ⟨w.start_le_last, hfound.1⟩
  · exact absurd h (by simp)

end FieldWalk

/-- Every field has its walk. -/
theorem fieldWalk_nonempty (pkt : Packet) (tag : UInt8) (start stop : ℤ) :
    Nonempty (FieldWalk pkt tag start stop) := by
  obtain ⟨ps, q, hpassed⟩ := passedOver_exists pkt stop tag start
  exact ⟨⟨ps, q, hpassed⟩⟩

/-! ## A message -/

/-- A message at `dhcp`, `len` bytes long, with the three fields that can hold an option with the
tag. The options have lengths of at most 127, in the file and the sname field where they hold
options. -/
structure OptionMessage where
  pkt : Packet
  tag : UInt8
  dhcp : ℤ
  len : ℤ
  options : FieldWalk pkt tag (dhcp + optionsOff + magicLen) (dhcp + len)
  file : FieldWalk pkt tag (dhcp + fileOff) (dhcp + fileOff + 128)
  sname : FieldWalk pkt tag (dhcp + snameOff) (dhcp + snameOff + 64)
  optionsShort : options.Short
  fileShort : options.overload = 1 ∨ options.overload = 3 → file.Short
  snameShort : options.overload = 2 ∨ options.overload = 3 → sname.Short

namespace OptionMessage

variable (x : OptionMessage)

/-- The first option with the tag, in the order of the fields. -/
def wanted : Option ℤ :=
  x.options.first.or
    ((if x.options.overload = 1 ∨ x.options.overload = 3 then x.file.first else none).or
      (if x.options.overload = 2 ∨ x.options.overload = 3 then x.sname.first else none))

/-- The option that is picked up. -/
def picked : Option ℤ :=
  if x.options.first ≠ none ∧ x.options.overload = 0 then x.options.first
  else if x.options.overload = 1 ∨ x.options.overload = 3 then x.file.first
  else if x.options.overload = 2 then x.sname.first
  else none

/-- `dhcpPickupOpt` returns the first option with the tag. -/
def HonoursOverload : Prop :=
  ∃ rounds, ∀ n ≥ rounds, dhcpPickupOpt n x.pkt x.dhcp x.len x.tag = some x.wanted

/-- The rounds that are enough for each of the searches. -/
def rounds : ℕ := x.options.items.length + x.file.items.length + x.sname.items.length + 1

variable {x}

theorem dhcpPickupOpt_eq {n : ℕ} (hn : x.rounds ≤ n) :
    dhcpPickupOpt n x.pkt x.dhcp x.len x.tag = some x.picked := by
  unfold rounds at hn
  have hscan := FieldWalk.scan x.optionsShort (n := n) (by omega)
  unfold dhcpPickupOpt picked
  rw [hscan]
  dsimp only
  by_cases hfirst : x.options.first ≠ none ∧ x.options.overload = 0
  · rw [if_pos hfirst, if_pos hfirst]
  rw [if_neg hfirst, if_neg hfirst]
  by_cases hfile : x.options.overload = 1 ∨ x.options.overload = 3
  · have hscanFile := FieldWalk.scan (x.fileShort hfile) (n := n) (by omega)
    rw [if_pos hfile, if_pos hfile, hscanFile]
    rfl
  rw [if_neg hfile, if_neg hfile]
  by_cases hsname : x.options.overload = 2
  · have hscanSname := FieldWalk.scan (x.snameShort (.inl hsname)) (n := n) (by omega)
    rw [if_pos hsname, if_pos hsname, hscanSname]
    rfl
  · rw [if_neg hsname, if_neg hsname]

/-- No option of the options field lies in the other two. -/
theorem other_fields_ne {p : ℤ} (h : x.options.first = some p) :
    x.file.first ≠ some p ∧ x.sname.first ≠ some p := by
  have hp := FieldWalk.first_bounds h
  unfold optionsOff magicLen at hp
  constructor
  · intro hfile
    have hin := FieldWalk.first_bounds hfile
    unfold fileOff at hin
    omega
  · intro hsname
    have hin := FieldWalk.first_bounds hsname
    unfold snameOff at hin
    omega

theorem picked_of_overload {p : ℤ} (h : x.options.first = some p) (hover : x.options.overload ≠ 0) :
    x.picked ≠ some p := by
  obtain ⟨hfile, hsname⟩ := other_fields_ne h
  unfold picked
  rw [if_neg fun hfound => hover hfound.2]
  split
  · exact hfile
  · split
    · exact hsname
    · simp

end OptionMessage

/-- The first option is found if and only if it is not an option behind an overload option and,
where both fields hold options, not one of the sname field. -/
theorem honoursOverload_iff (x : OptionMessage) :
    x.HonoursOverload ↔
      (x.options.first.isSome → x.options.overload = 0) ∧
        (x.options.first = none → x.options.overload = 3 → x.file.first = none →
          x.sname.first = none) := by
  -- with enough rounds the search ends at one place
  have hrun : x.HonoursOverload ↔ x.picked = x.wanted := by
    constructor
    · rintro ⟨rounds, hall⟩
      have hwanted := hall (max rounds x.rounds) (le_max_left _ _)
      rw [OptionMessage.dhcpPickupOpt_eq (le_max_right _ _)] at hwanted
      exact Option.some.inj hwanted
    · intro heq
      exact ⟨x.rounds, fun n hn => by rw [OptionMessage.dhcpPickupOpt_eq hn, heq]⟩
  rw [hrun]
  cases hfirst : x.options.first with
  | some p =>
    have hwanted : x.wanted = some p := by
      unfold OptionMessage.wanted
      rw [hfirst]
      rfl
    rw [hwanted]
    constructor
    · intro hpicked
      refine ⟨fun _ => ?_, fun hnone => absurd hnone (by simp)⟩
      by_contra hover
      exact OptionMessage.picked_of_overload hfirst hover hpicked
    · rintro ⟨hover, -⟩
      unfold OptionMessage.picked
      rw [if_pos ⟨by simp [hfirst], hover rfl⟩, hfirst]
  | none =>
    -- the fields are searched; file alone if both hold options
    have hskip : ¬(x.options.first ≠ none ∧ x.options.overload = 0) := fun h => h.1 hfirst
    unfold OptionMessage.picked OptionMessage.wanted
    rw [if_neg hskip, hfirst, Option.none_or]
    by_cases hboth : x.options.overload = 3
    · rw [if_pos (.inr hboth), if_pos (.inr hboth), if_pos (.inr hboth)]
      cases hfile : x.file.first with
      | some p => simp
      | none => simp [hboth, eq_comm]
    · by_cases hone : x.options.overload = 1
      · simp [hone]
      · by_cases htwo : x.options.overload = 2
        · simp [htwo]
        · simp [hone, htwo, hboth]

/-- A message with an overload option for both fields in front of its message type. The two
fields are empty. -/
def overloadedAck : OptionMessage where
  pkt := store (store (store (fun _ => 0) snameOff [endTag]) fileOff [endTag]) 240
    [optOverload, 1, 3, dhcpMsgtype, 1, 5, endTag]
  tag := dhcpMsgtype
  dhcp := 0
  len := 247
  options := ⟨[240], 243, .item (by decide) (.done (by decide))⟩
  file := ⟨[], 108, .done (by decide)⟩
  sname := ⟨[], 44, .done (by decide)⟩
  optionsShort := by unfold FieldWalk.Short; decide
  fileShort := fun _ => nofun
  snameShort := fun _ => nofun

/-- The message type is there, but it is not found. -/
theorem overloadedAck_lost : ¬∀ x : OptionMessage, x.HonoursOverload := by
  intro hall
  obtain ⟨rounds, hrounds⟩ := hall overloadedAck
  have hwanted := hrounds (max rounds overloadedAck.rounds) (le_max_left _ _)
  rw [OptionMessage.dhcpPickupOpt_eq (le_max_right _ _)] at hwanted
  exact absurd hwanted (by decide)

end Udpfwd
end IpApps
