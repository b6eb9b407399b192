import Mathlib.Logic.Relation
import IpApps.Udpfwd.CountedReplies

/-!
# Searching two packets for the message type

The rounds of `dhcpScanOpt` as steps over a field, from a position to the next one. In a packet
that agrees on what is read at these positions the search goes the same way, whether it ends or
not.
-/

namespace IpApps
namespace Udpfwd

open Memory

/-! ## A field -/

section field

variable (pkt : Packet) (optend : ℤ) (tag : UInt8)

/-- The search goes on behind an item, with the value of the last overload option. -/
def SearchStep (s s' : ℤ × UInt8) : Prop :=
  Passes pkt optend tag s.1 ∧
    s' = (if pkt s.1 = pad then s.1 + 1 else s.1 + 2 + dhcpoptlen pkt s.1,
      if pkt s.1 = optOverload then pkt (s.1 + 2) else s.2)

/-- The search comes from one position to another. -/
abbrev SearchReaches : ℤ × UInt8 → ℤ × UInt8 → Prop :=
  Relation.ReflTransGen (SearchStep pkt optend tag)

/-- The search comes to its end, with the option and the overload value. -/
def SearchEnds (s : ℤ × UInt8) (o : Option ℤ) (v : UInt8) : Prop :=
  ∃ q, SearchReaches pkt optend tag s (q, v) ∧ ¬Passes pkt optend tag q ∧
    found pkt optend tag q = o

/-- What the search reads lies within the first `n` bytes: the tags of the items it comes to, the
length octets of those it passes, and the values of overload options. -/
def FieldWithin (n : ℤ) (s : ℤ × UInt8) : Prop :=
  ∀ s', SearchReaches pkt optend tag s s' → s'.1 < optend →
    0 ≤ s'.1 ∧ s'.1 < n ∧ (Passes pkt optend tag s'.1 → pkt s'.1 ≠ pad →
      s'.1 + 1 < n ∧ (pkt s'.1 = optOverload → s'.1 + 2 < n))

variable {pkt optend tag} {pkt' : Packet} {n : ℤ} {s : ℤ × UInt8}

theorem SearchStep.within {s' : ℤ × UInt8} (h : SearchStep pkt optend tag s s')
    (hwithin : FieldWithin pkt optend tag n s) : FieldWithin pkt optend tag n s' :=
  fun s₁ hreach => hwithin s₁ (.head h hreach)

theorem SearchEnds.scan {o : Option ℤ} {v : UInt8} (h : SearchEnds pkt optend tag s o v) :
    ∃ rounds, dhcpScanOpt pkt optend tag rounds s.1 s.2 = some (o, v) := by
  obtain ⟨q, hreach, hend, rfl⟩ := h
  induction hreach using Relation.ReflTransGen.head_induction_on with
  | refl => exact ⟨1, dhcpScanOpt_end hend 0 v⟩
  | head hstep _ ih =>
    obtain ⟨hpass, rfl⟩ := hstep
    obtain ⟨rounds, hscan⟩ := ih
    exact ⟨rounds + 1, (dhcpScanOpt_item hpass rounds _).trans hscan⟩

/-- An option that is found was read. -/
theorem SearchEnds.pos {p : ℤ} {v : UInt8} (h : SearchEnds pkt optend tag s (some p) v)
    (hwithin : FieldWithin pkt optend tag n s) : 0 ≤ p := by
  obtain ⟨q, hreach, -, hfound⟩ := h
  unfold found at hfound
  split at hfound
  · rename_i hhere
    obtain rfl := Option.some.inj hfound
    exact (hwithin (q, v) hreach hhere.1).1
  · cases hfound

end field

/-! ## The message -/

section message

variable (pkt : Packet)

/-- The search through the options field ends. -/
abbrev OptionsEnd : Option ℤ → UInt8 → Prop :=
  SearchEnds pkt (dhcp pkt + dhcpPktlen pkt) dhcpMsgtype (dhcp pkt + optionsOff + magicLen, 0)

/-- The search for the message type ends with the option, if there is one. -/
inductive PicksUp : Option ℤ → Prop
  | options {o : Option ℤ} {v : UInt8} (h : OptionsEnd pkt o v) (hlast : nextField pkt v = none) :
      PicksUp (if v = 0 then o else none)
  | field {o o' : Option ℤ} {v v' : UInt8} {start stop : ℤ} (h : OptionsEnd pkt o v)
      (hnext : nextField pkt v = some (start, stop))
      (hfield : SearchEnds pkt stop dhcpMsgtype (start, 0) o' v') : PicksUp o'

/-- The search for the message type reads the first `n` bytes only. -/
structure PickupWithin (n : ℤ) : Prop where
  options : FieldWithin pkt (dhcp pkt + dhcpPktlen pkt) dhcpMsgtype n
    (dhcp pkt + optionsOff + magicLen, 0)
  field : ∀ o v start stop, OptionsEnd pkt o v → nextField pkt v = some (start, stop) →
    FieldWithin pkt stop dhcpMsgtype n (start, 0)

variable {pkt} {pkt' : Packet} {n : ℤ} {option : Option ℤ}

theorem PicksUp.pickup (h : PicksUp pkt option) :
    ∃ rounds, dhcpPickupOpt rounds pkt (dhcp pkt) (dhcpPktlen pkt) dhcpMsgtype = some option := by
  cases h with
  | options h hlast =>
    obtain ⟨rounds, hscan⟩ := h.scan
    refine ⟨rounds, ?_⟩
    rw [dhcpPickupOpt_read hscan, hlast]
  | field h hnext hfield =>
    obtain ⟨rounds, hscan⟩ := h.scan
    obtain ⟨rounds', hscan'⟩ := hfield.scan
    refine ⟨rounds + rounds', ?_⟩
    rw [dhcpPickupOpt_read (dhcpScanOpt_mono hscan rounds'), hnext, Nat.add_comm]
    dsimp only
    rw [dhcpScanOpt_mono hscan' rounds]
    rfl

theorem PicksUp.pos {p : ℤ} (h : PicksUp pkt (some p)) (hwithin : PickupWithin pkt n) : 0 ≤ p := by
  generalize hoption : some p = option at h
  cases h with
  | @options o v h hlast =>
    split at hoption
    · subst hoption
      exact h.pos hwithin.options
    · cases hoption
  | field h hnext hfield =>
    subst hoption
    exact hfield.pos (hwithin.field _ _ _ _ h hnext)

end message

end Udpfwd
end IpApps
