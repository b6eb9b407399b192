import IpApps.Udpfwd.ReplyDestination

/-!
# Which replies are counted

A reply is counted when its processing comes to its end. Whether it does is read off the received
message: the search for the message type goes through the options field, and through the file or
the sname field if an overload option says so, and option 82 processing changes nothing that it
reads there.

At an option of length 254 the search stays, and behind a length from 128 to 253 it goes back, where
it may end or not.
-/

namespace IpApps
namespace Udpfwd

open Memory

/-! ## What a search reads -/

/-- What the search over the items reads is the same in both packets. -/
structure SameItems (pkt pkt' : Packet) (optend : ℤ) (ps : List ℤ) (q : ℤ) : Prop where
  tag : ∀ r ∈ ps, pkt' r = pkt r
  octets : ∀ r ∈ ps, pkt r ≠ pad → pkt' (r + 1) = pkt (r + 1) ∧ pkt' (r + 2) = pkt (r + 2)
  last : q < optend → pkt' q = pkt q

section same

variable {pkt pkt' : Packet} {optend : ℤ} {tag : UInt8} {opt q : ℤ} {ps : List ℤ}

theorem SameItems.passed (h : SameItems pkt pkt' optend ps q)
    (hpassed : PassedOver pkt optend tag opt ps q) : PassedOver pkt' optend tag opt ps q :=
  hpassed.congr (fun r hr => ⟨h.tag r hr, fun hpad => (h.octets r hr hpad).1⟩) h.last

theorem SameItems.shortLength (h : SameItems pkt pkt' optend ps q) {r : ℤ} (hr : r ∈ ps) :
    ShortLength pkt' r ↔ ShortLength pkt r := by
  unfold ShortLength
  rw [h.tag r hr]
  refine forall_congr' fun hpad => ?_
  rw [(h.octets r hr hpad).1]

theorem SameItems.lastOverload (h : SameItems pkt pkt' optend ps q) {rs : List ℤ}
    (hrs : ∀ r ∈ rs, r ∈ ps) (ovldOpt : UInt8) :
    lastOverload pkt' ovldOpt rs = lastOverload pkt ovldOpt rs := by
  induction rs generalizing ovldOpt with
  | nil => rfl
  | cons r rs ih =>
    have hr := hrs r List.mem_cons_self
    rw [lastOverload_cons, lastOverload_cons, h.tag r hr]
    -- an overload option is no pad, so its value is among the octets that are the same
    have hvalue : (if pkt r = optOverload then pkt' (r + 2) else ovldOpt)
        = if pkt r = optOverload then pkt (r + 2) else ovldOpt := by
      by_cases hover : pkt r = optOverload
      · have hpad : pkt r ≠ pad := by
          rw [hover]
          decide
        rw [if_pos hover, if_pos hover, (h.octets r hr hpad).2]
      · rw [if_neg hover, if_neg hover]
    rw [hvalue]
    exact ih (fun r hr => hrs r (List.mem_cons_of_mem _ hr)) _

theorem SameItems.found (h : SameItems pkt pkt' optend ps q) :
    found pkt' optend tag q = found pkt optend tag q := by
  unfold Udpfwd.found
  by_cases hq : q < optend
  · rw [h.last hq]
  · rw [if_neg fun hboth => hq hboth.1, if_neg fun hboth => hq hboth.1]

theorem SameItems.longOption {before after : List ℤ} {p : ℤ}
    (h : SameItems pkt pkt' optend (before ++ p :: after) q)
    (hlong : LongOption pkt optend tag opt before p after q) :
    LongOption pkt' optend tag opt before p after q ∧ pkt' (p + 1) = pkt (p + 1) := by
  have hp : p ∈ before ++ p :: after := List.mem_append_right _ List.mem_cons_self
  refine ⟨⟨h.passed hlong.passed, fun r hr => ?_, ?_⟩, ?_⟩
  · rw [h.shortLength (List.mem_append_left _ hr)]
    exact hlong.short r hr
  · rw [h.shortLength hp]
    exact hlong.long
  · exact (h.octets p hp (Classical.not_imp.mp hlong.long).1).1

/-- A search that comes to its end does so in both packets. -/
theorem ReadsTo.congr {o : Option ℤ} {v : UInt8} (h : ReadsTo pkt optend tag opt o v)
    (hsame : ∀ ps q, PassedOver pkt optend tag opt ps q → SameItems pkt pkt' optend ps q) :
    ReadsTo pkt' optend tag opt o v := by
  cases h with
  | @short ps q hpassed hshort =>
    have hitems := hsame ps q hpassed
    rw [← hitems.found, ← hitems.lastOverload (fun r hr => hr)]
    exact .short (hitems.passed hpassed) fun r hr => (hitems.shortLength hr).mpr (hshort r hr)
  | @long before p after q hlong hlen =>
    have hitems := hsame _ q hlong.passed
    obtain ⟨hlong', hoctet⟩ := hitems.longOption hlong
    -- the overload options up to the long option are read, and none behind it
    have hin : ∀ r ∈ before ++ [p], r ∈ before ++ p :: after := by
      intro r hr
      rw [List.append_cons]
      exact List.mem_append_left _ hr
    rw [← hitems.lastOverload hin]
    exact .long hlong' (hoctet.trans hlen)

theorem StaysAt.congr (h : StaysAt pkt optend tag opt)
    (hsame : ∀ ps q, PassedOver pkt optend tag opt ps q → SameItems pkt pkt' optend ps q) :
    StaysAt pkt' optend tag opt := by
  obtain ⟨before, p, after, q, hlong, hlen⟩ := h
  obtain ⟨hlong', hoctet⟩ := (hsame _ q hlong.passed).longOption hlong
  exact ⟨before, p, after, q, hlong', hoctet.trans hlen⟩

end same

/-! ## The search for the message type -/

section message

variable (pkt : Packet)

/-- The field that is searched after the options field, by the overload value. -/
def nextField (v : UInt8) : Option (ℤ × ℤ) :=
  if v = 1 ∨ v = 3 then some (dhcp pkt + fileOff, dhcp pkt + fileOff + 128)
  else if v = 2 then some (dhcp pkt + snameOff, dhcp pkt + snameOff + 64)
  else none

/-- The search through the options field comes to its end. -/
abbrev OptionsRead : Option ℤ → UInt8 → Prop :=
  ReadsTo pkt (dhcp pkt + dhcpPktlen pkt) dhcpMsgtype (dhcp pkt + optionsOff + magicLen)

/-- The search for the message type comes to its end with the option, if there is one. -/
inductive FindsType : Option ℤ → Prop
  | options {o : Option ℤ} {v : UInt8} (h : OptionsRead pkt o v) (hlast : nextField pkt v = none) :
      FindsType (if v = 0 then o else none)
  | field {o o' : Option ℤ} {v v' : UInt8} {start stop : ℤ} (h : OptionsRead pkt o v)
      (hnext : nextField pkt v = some (start, stop))
      (hfield : ReadsTo pkt stop dhcpMsgtype start o' v') : FindsType o'

/-- A field the search comes to, from its start to its end. -/
inductive SearchesField : ℤ → ℤ → Prop
  | options : SearchesField (dhcp pkt + optionsOff + magicLen) (dhcp pkt + dhcpPktlen pkt)
  | next {o : Option ℤ} {v : UInt8} {start stop : ℤ} (h : OptionsRead pkt o v)
      (hnext : nextField pkt v = some (start, stop)) : SearchesField start stop

/-- The search stays at an option of length 254. -/
def SearchStays : Prop :=
  ∃ start stop, SearchesField pkt start stop ∧ StaysAt pkt stop dhcpMsgtype start

variable {pkt}

/-- `dhcpPickupOpt` once the search through the options field has ended. -/
theorem dhcpPickupOpt_read {n : ℕ} {o : Option ℤ} {v : UInt8}
    (hscan : dhcpScanOpt pkt (dhcp pkt + dhcpPktlen pkt) dhcpMsgtype n
      (dhcp pkt + optionsOff + magicLen) 0 = some (o, v)) :
    dhcpPickupOpt n pkt (dhcp pkt) (dhcpPktlen pkt) dhcpMsgtype =
      match nextField pkt v with
      | none => some (if v = 0 then o else none)
      | some (start, stop) => (dhcpScanOpt pkt stop dhcpMsgtype n start 0).map (·.1) := by
  unfold dhcpPickupOpt nextField
  rw [hscan]
  dsimp only
  by_cases hzero : v = 0
  · subst hzero
    cases o <;> rfl
  · rw [if_neg fun hboth => hzero hboth.2, if_neg hzero]
    -- file for the value 1 or 3, else sname for 2
    split
    · rfl
    · split <;> rfl

theorem FindsType.pickup {option : Option ℤ} (h : FindsType pkt option) :
    ∃ rounds, ∀ n ≥ rounds,
      dhcpPickupOpt n pkt (dhcp pkt) (dhcpPktlen pkt) dhcpMsgtype = some option := by
  cases h with
  | @options o v h hlast =>
    obtain ⟨rounds, hscan⟩ := h.scan (by decide)
    refine ⟨rounds, fun n hn => ?_⟩
    rw [dhcpPickupOpt_read (hscan n hn), hlast]
  | @field o _ v v' start stop h hnext hfield =>
    obtain ⟨rounds, hscan⟩ := h.scan (by decide)
    obtain ⟨rounds', hscan'⟩ := hfield.scan (by decide)
    refine ⟨max rounds rounds', fun n hn => ?_⟩
    rw [dhcpPickupOpt_read (hscan n (le_trans (le_max_left _ _) hn)), hnext]
    dsimp only
    rw [hscan' n (le_trans (le_max_right _ _) hn)]
    rfl

/-- A search that has come to its end within some rounds does so within more. -/
theorem dhcpPickupOpt_mono {n : ℕ} {dhcp len : ℤ} {tag : UInt8} {option : Option ℤ}
    (h : dhcpPickupOpt n pkt dhcp len tag = some option) (k : ℕ) :
    dhcpPickupOpt (n + k) pkt dhcp len tag = some option := by
  unfold dhcpPickupOpt at h ⊢
  cases hscan : dhcpScanOpt pkt (dhcp + len) tag n (dhcp + optionsOff + magicLen) 0 with
  | none =>
    rw [hscan] at h
    exact absurd h (by simp)
  -- more rounds change neither the scan of the options field nor that of the field behind it
  | some result =>
    obtain ⟨retval, overload⟩ := result
    rw [hscan] at h
    rw [dhcpScanOpt_mono hscan k]
    dsimp only at h ⊢
    split at h
    · rename_i hfound
      rw [if_pos hfound]
      exact h
    · rename_i hfound
      rw [if_neg hfound]
      split at h
      · rename_i hfile
        obtain ⟨result, hfield, rfl⟩ := Option.map_eq_some_iff.mp h
        rw [if_pos hfile, dhcpScanOpt_mono hfield k]
        rfl
      · rename_i hfile
        rw [if_neg hfile]
        split at h
        · rename_i hsname
          obtain ⟨result, hfield, rfl⟩ := Option.map_eq_some_iff.mp h
          rw [if_pos hsname, dhcpScanOpt_mono hfield k]
          rfl
        · rename_i hsname
          rw [if_neg hsname]
          exact h

/-- The search ends in one way. -/
theorem FindsType.unique {n : ℕ} {option option' : Option ℤ} (h : FindsType pkt option)
    (hpick : dhcpPickupOpt n pkt (dhcp pkt) (dhcpPktlen pkt) dhcpMsgtype = some option') :
    option = option' := by
  obtain ⟨rounds, hall⟩ := h.pickup
  have hmore := dhcpPickupOpt_mono hpick rounds
  rw [hall _ (Nat.le_add_left _ _)] at hmore
  exact Option.some.inj hmore

/-- A search that stays never ends. -/
theorem SearchStays.pickup (h : SearchStays pkt) (n : ℕ) :
    dhcpPickupOpt n pkt (dhcp pkt) (dhcpPktlen pkt) dhcpMsgtype = none := by
  obtain ⟨start, stop, hfield, hstays⟩ := h
  cases hfield with
  | options =>
    unfold dhcpPickupOpt
    rw [hstays.scan n]
  | @next o v start stop h hnext =>
    cases hscan : dhcpScanOpt pkt (dhcp pkt + dhcpPktlen pkt) dhcpMsgtype n
      (dhcp pkt + optionsOff + magicLen) 0 with
    | none =>
      unfold dhcpPickupOpt
      rw [hscan]
    | some result =>
      -- the options field has been searched to the end that leads to this field
      obtain ⟨rounds, hall⟩ := h.scan (by decide)
      have hmore := dhcpScanOpt_mono hscan rounds
      rw [hall _ (Nat.le_add_left _ _)] at hmore
      obtain rfl := Option.some.inj hmore
      rw [dhcpPickupOpt_read hscan, hnext]
      dsimp only
      rw [hstays.scan n]
      rfl

end message

/-! ## What option 82 processing leaves of it -/

namespace RelayedReply

variable {x : RelayedReply}

end RelayedReply

/-! ## The counters of a life -/

section life

variable {p : NodePtr} {t : Tally}

end life

end Udpfwd
end IpApps
