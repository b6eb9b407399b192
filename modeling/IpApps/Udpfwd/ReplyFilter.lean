import IpApps.Udpfwd.Option82Insert
import Mathlib.Data.List.TakeWhile

/-!
# Filtering a reply by its relay agent options

A reply whose options are pads and complete options up to END. Each option 82 is judged by
`dhcp_relay_validate_agent_option` and stripped, and the other options are moved down over
it. The verdicts decide whether the reply is dropped. What is left of it can be read as long
as no move overwrites the length octet that is read next (`LengthsKept`).
-/

namespace IpApps
namespace Udpfwd

open Memory Endian

/-! ## The verdict on an option -/

/-- What `dhcp_relay_validate_agent_option` says of an option with this body. -/
def agentOptionStatus (host : Host) (ifName : CString) (rId : RemoteId) (body : List UInt8) :
    AgentOptionStatus :=
  (dhcpRelayValidateAgentOption host (fun a => body[a.toNat]?.getD 0) 0 body.length ifName
    ⟨0, 0⟩ rId).1

/-- The suboptions of an option that lies `d` bytes further up. -/
def Suboptions.moveUp (d : ℤ) (s : Suboptions) : Suboptions where
  circuitIdLen := s.circuitIdLen
  circuitIdPtr := s.circuitIdPtr.map (· + d)
  remoteIdLen := s.remoteIdLen
  remoteIdPtr := s.remoteIdPtr.map (· + d)

/-- The ids that were found lie in the `n` bytes of the option body at 0. -/
structure Suboptions.Inside (s : Suboptions) (n : ℕ) : Prop where
  circuitId : ∀ p ∈ s.circuitIdPtr, 0 ≤ p ∧ p + s.circuitIdLen ≤ n
  remoteId : ∀ p ∈ s.remoteIdPtr, 0 ≤ p ∧ p + s.remoteIdLen ≤ n

section verdict

variable {host : Host} {ifName : CString} {rId : RemoteId} {pkt pkt' : Packet} {buf : ℤ} {n : ℕ}

/-- The loop over the suboptions reads the body only. -/
theorem suboptionLoop_moveUp (h : ∀ i : ℕ, i < n → pkt' (buf + i) = pkt i) (rounds : ℕ)
    {iter : ℤ} (hiter : 0 ≤ iter) {s : Suboptions} (hs : s.Inside n) :
    suboptionLoop pkt' buf n rounds iter (s.moveUp buf)
        = (suboptionLoop pkt 0 n rounds iter s).map (Suboptions.moveUp buf) ∧
      ∀ s' ∈ suboptionLoop pkt 0 n rounds iter s, s'.Inside n := by
  induction rounds generalizing iter s with
  | zero =>
    refine ⟨rfl, ?_⟩
    intro s' hs'
    obtain rfl := Option.some.inj hs'
    exact hs
  | succ rounds ih =>
    unfold suboptionLoop
    by_cases hend : iter < n - 1
    · -- the type and the length octet are the same in both buffers
      have hread : ∀ a : ℤ, 0 ≤ a → a < n → pkt' (buf + a) = pkt (0 + a) := by
        intro a ha hlt
        obtain ⟨i, rfl⟩ : ∃ i : ℕ, a = i := ⟨a.toNat, by omega⟩
        rw [h i (by omega), zero_add]
      have htype := hread iter hiter (by omega)
      have hlen := hread (iter + 1) (by omega) (by omega)
      simp only [not_true_eq_false, hend, if_false, htype, hlen]
      -- what the round does depends on the two octets only; a pointer it sets moves along
      generalize pkt (0 + iter) = opttype
      generalize (pkt (0 + (iter + 1))).toNat = optlen
      split
      · exact ⟨rfl, by simp⟩
      · split
        · have hnext := @ih (iter + 2 + optlen) (by omega)
            { s with circuitIdLen := optlen, circuitIdPtr := some (0 + (iter + 2)) }
            ⟨by simp; omega, hs.remoteId⟩
          rw [← hnext.1]
          refine ⟨?_, hnext.2⟩
          simp only [Suboptions.moveUp, Option.map_some]
          congr 3
          omega
        · split
          · have hnext := @ih (iter + 2 + optlen) (by omega)
              { s with remoteIdLen := optlen, remoteIdPtr := some (0 + (iter + 2)) }
              ⟨hs.circuitId, by simp; omega⟩
            rw [← hnext.1]
            refine ⟨?_, hnext.2⟩
            simp only [Suboptions.moveUp, Option.map_some]
            congr 3
            omega
          · exact ⟨rfl, by simp⟩
    · simp only [hend, not_false_eq_true, if_true]
      refine ⟨rfl, ?_⟩
      intro s' hs'
      obtain rfl := Option.some.inj hs'
      exact hs

/-- Two ranges that hold the same bytes hold the same address. -/
theorem ipAt_congr {a a' : ℤ} (h : ∀ i : ℕ, i < 4 → pkt' (a' + i) = pkt (a + i)) :
    ipAt pkt' a' = ipAt pkt a := by
  rw [ipAt, ipAt, slice_congr pkt' pkt h]

/-- The check of an option reads its body only. -/
theorem validate_congr (h : ∀ i : ℕ, i < n → pkt' (buf + i) = pkt i)
    (pktInfo : Option82Options) :
    dhcpRelayValidateAgentOption host pkt' buf n ifName pktInfo rId
      = dhcpRelayValidateAgentOption host pkt 0 n ifName pktInfo rId := by
  have hstart : ({} : Suboptions).Inside n := ⟨nofun, nofun⟩
  obtain ⟨hmove, hinside⟩ := suboptionLoop_moveUp h (n + 1) (Int.le_refl 0) hstart
  have hmove : suboptionLoop pkt' buf n (n + 1) 0 {}
      = (suboptionLoop pkt 0 n (n + 1) 0 {}).map (Suboptions.moveUp buf) :=
    hmove
  unfold dhcpRelayValidateAgentOption
  rw [Int.toNat_natCast, hmove]
  cases hloop : suboptionLoop pkt 0 n (n + 1) 0 {} with
  | none => rfl
  | some s =>
    have hs := hinside s hloop
    -- a value of the option, read from either packet
    have hvalue : ∀ (p : ℤ) (k : ℕ), 0 ≤ p → p + k ≤ n →
        ∀ i : ℕ, i < k → pkt' (p + buf + i) = pkt (p + i) := by
      intro p k hp hk i hi
      obtain ⟨j, hj⟩ : ∃ j : ℕ, p + i = j := ⟨(p + i).toNat, by omega⟩
      rw [show p + buf + i = buf + j by omega, hj]
      exact h j (by omega)
    obtain ⟨circuitIdLen, circuitIdPtr, remoteIdLen, remoteIdPtr⟩ := s
    cases circuitIdPtr with
    | none => rfl
    | some p =>
      cases remoteIdPtr with
      | none => rfl
      | some q =>
        simp only [Suboptions.moveUp, Option.map_some]
        by_cases hcircuit : circuitIdLen ≠ 4
        · rw [if_pos hcircuit, if_pos hcircuit]
        · rw [if_neg hcircuit, if_neg hcircuit]
          obtain ⟨hp, hpend⟩ := hs.circuitId p rfl
          obtain ⟨hq, hend⟩ := hs.remoteId q rfl
          simp only at hpend hend
          rw [not_not.mp hcircuit] at hpend
          rw [slice_congr pkt' pkt (hvalue p 4 hp hpend)]
          cases rId with
          | mac =>
            simp only
            by_cases hsix : remoteIdLen ≠ macHeaderLength
            · rw [if_pos hsix, if_pos hsix]
            · rw [if_neg hsix, if_neg hsix]
              rw [not_not.mp hsix] at hend
              rw [slice_congr pkt' pkt (hvalue q macHeaderLength hq hend)]
          | ip =>
            simp only
            by_cases hfour : remoteIdLen ≠ 4
            · rw [if_pos hfour, if_pos hfour]
            · rw [if_neg hfour, if_neg hfour]
              rw [not_not.mp hfour] at hend
              rw [ipAt_congr (hvalue q 4 hq hend)]

/-- The verdict does not depend on the interface information handed in. -/
theorem validate_pktInfo (pktInfo pktInfo' : Option82Options) :
    (dhcpRelayValidateAgentOption host pkt buf n ifName pktInfo rId).1
      = (dhcpRelayValidateAgentOption host pkt buf n ifName pktInfo' rId).1 := by
  unfold dhcpRelayValidateAgentOption
  cases suboptionLoop pkt buf n ((n : ℤ).toNat + 1) 0 {} with
  | none => rfl
  | some s =>
    dsimp only
    split
    · split
      · rfl
      · split <;> split <;> (try rfl) <;> split <;> rfl
    · rfl

/-- The verdict on an option depends on its body alone. -/
theorem validate_status {body : List UInt8} (h : slice pkt' buf body.length = body)
    (pktInfo : Option82Options) :
    (dhcpRelayValidateAgentOption host pkt' buf body.length ifName pktInfo rId).1
      = agentOptionStatus host ifName rId body := by
  unfold agentOptionStatus
  generalize hpkt : (fun a : ℤ => body[a.toNat]?.getD 0) = pkt
  have hbody : ∀ i : ℕ, i < body.length → pkt' (buf + i) = pkt i := by
    intro i hi
    have hcell := eq_of_slice_eq pkt' h hi
    rw [← hpkt]
    simp only [Int.toNat_natCast, ← hcell, Option.getD_some]
  rw [validate_congr hbody]
  exact validate_pktInfo _ _

end verdict

/-! ## A round of the loop -/

/-- Whether the item is a relay agent option with this verdict. -/
def judged (host : Host) (ifName : CString) (rId : RemoteId) (status : AgentOptionStatus) :
    DhcpItem → Bool
  | .pad => false
  | .opt o => o.tag = dhcpAgentOptions ∧ agentOptionStatus host ifName rId o.body = status

/-- Two scans that stand at the same place of the same packet. -/
structure Scan.SamePlace (s s' : Scan) : Prop where
  pkt : s'.pkt = s.pkt
  sp : s'.sp = s.sp
  optionParserPtr : s'.optionParserPtr = s.optionParserPtr
  isDhcp : s'.isDhcp = s.isDhcp

theorem Scan.SamePlace.trans {s₁ s₂ s₃ : Scan} (h : s₁.SamePlace s₂) (h' : s₂.SamePlace s₃) :
    s₁.SamePlace s₃ :=
  ⟨h'.pkt.trans h.pkt, h'.sp.trans h.sp, h'.optionParserPtr.trans h.optionParserPtr,
    h'.isDhcp.trans h.isDhcp⟩

/-- The place after an item depends on the place before it. -/
theorem Scan.SamePlace.absorb {s s' : Scan} (h : s.SamePlace s') (item : DhcpItem) :
    (s.absorb item).SamePlace (s'.absorb item) := by
  obtain ⟨hpkt, hsp, hptr, hdhcp⟩ := h
  cases item with
  | pad => constructor <;> simp only [Scan.absorb, hpkt, hsp, hptr, hdhcp]
  | opt o =>
    simp only [Scan.absorb, hdhcp]
    split <;> constructor <;> simp only [hpkt, hsp, hptr]

theorem Scan.SamePlace.absorbAll {s s' : Scan} (h : s.SamePlace s') (items : List DhcpItem) :
    (s.absorbAll items).SamePlace (s'.absorbAll items) := by
  induction items generalizing s s' with
  | nil => exact h
  | cons item items ih => exact ih (h.absorb item)

/-- The items ahead depend on the place alone. -/
theorem InLine.samePlace {base : ℤ} {s s' : Scan} {shift : ℕ} {items : List DhcpItem}
    (h : InLine base s shift items) (hs : s.SamePlace s') : InLine base s' shift items where
  bytes := by
    rw [hs.pkt, hs.optionParserPtr]
    exact h.bytes
  ptr := by
    rw [hs.sp, hs.optionParserPtr]
    exact h.ptr
  behind := by
    rw [hs.sp]
    exact h.behind

section round

variable {cfg : FeatureConfig} {host : Host} {ifName : CString} {dhcp max : ℤ} {s : Scan}
variable {o : DhcpOpt} {shift : ℕ}

/-- The round for an option that stays. The maximum message size of a reply is not read. -/
theorem optionStep_keep_reply (h : slice s.pkt s.optionParserPtr o.size = o.encode)
    (hptr : s.optionParserPtr = s.sp + shift)
    (hlen : shift = 0 ∨ o.body.length < shift ∨ o.body[shift - 1]? = some o.len)
    (hop : s.pkt (dhcp + opOff) = bootreply) (hstay : ¬ Strips s.isDhcp o) :
    ∃ s', optionStep cfg host ifName dhcp max s = .next s' ∧
      (s.absorb (.opt o)).SamePlace s' ∧ s'.goodAgentOption = s.goodAgentOption := by
  obtain ⟨htag, -⟩ := option_head h
  have hpad : o.tag ≠ pad := o.tag_ne_pad
  have hend : o.tag ≠ endTag := o.tag_ne_stop
  have hkeep : s.keepOption = { s with
      pkt := store s.pkt s.sp o.encode, endPad := none, sp := s.sp + o.size
      optionParserPtr := s.optionParserPtr + o.size } := keepOption_eq h hptr hlen
  simp only [Scan.absorb, if_neg hstay]
  unfold optionStep
  simp only [htag, if_neg hpad]
  -- the message type sets the flag, every other option leaves it
  by_cases hmsg : o.tag = dhcpMsgtype
  · rw [if_pos hmsg, keepOption_eq (s := { s with isDhcp := true }) h hptr hlen]
    exact ⟨_, rfl, ⟨rfl, rfl, rfl, by simp [hmsg]⟩, rfl⟩
  · have hsame : (s.isDhcp || decide (o.tag = dhcpMsgtype)) = s.isDhcp := by simp [hmsg]
    rw [if_neg hmsg, hsame, hkeep]
    by_cases hsize : o.tag = dhcpMaxmsgsize
    · have hrequest : s.pkt (dhcp + opOff) ≠ bootrequest := by
        rw [hop]
        decide
      rw [if_pos hsize, if_neg hrequest]
      exact ⟨_, rfl, ⟨rfl, rfl, rfl, rfl⟩, rfl⟩
    · rw [if_neg hsize, if_neg hend]
      by_cases hagent : o.tag = dhcpAgentOptions
      · have hdhcp : s.isDhcp = false := by simpa [Strips, hagent] using hstay
        rw [if_pos hagent, if_pos (by simp [hdhcp])]
        exact ⟨_, rfl, ⟨rfl, rfl, rfl, rfl⟩, rfl⟩
      · rw [if_neg hagent]
        exact ⟨_, rfl, ⟨rfl, rfl, rfl, rfl⟩, rfl⟩

/-- The round for a relay agent option of a reply, by the verdict. -/
theorem optionStep_agent_reply (h : slice s.pkt s.optionParserPtr o.size = o.encode)
    (hop : s.pkt (dhcp + opOff) = bootreply) (hgi : ipAt s.pkt (dhcp + giaddrOff) ≠ 0)
    (hdhcp : s.isDhcp = true) (hagent : o.tag = dhcpAgentOptions) :
    (agentOptionStatus host ifName cfg.rId o.body = .invalid →
      ∃ s', optionStep cfg host ifName dhcp max s = .ret .dropped s') ∧
    (agentOptionStatus host ifName cfg.rId o.body ≠ .invalid →
      ∃ s', optionStep cfg host ifName dhcp max s = .next s' ∧
        (s.absorb (.opt o)).SamePlace s' ∧ s'.goodAgentOption = (s.goodAgentOption ||
          decide (agentOptionStatus host ifName cfg.rId o.body = .ok))) := by
  obtain ⟨htag, hoctet⟩ := option_head h
  have hstrip : Strips s.isDhcp o = true := by simp [Strips, hdhcp, hagent]
  have hstep : optionStep cfg host ifName dhcp max s = agentOptionStep cfg host ifName dhcp s := by
    unfold optionStep
    simp only [htag, hagent]
    rw [if_neg (by decide), if_neg (by decide), if_neg (by decide), if_neg (by decide),
      if_pos trivial, if_neg (by simp [hdhcp])]
  have hstatus := @validate_status host ifName cfg.rId s.pkt (s.optionParserPtr + 2) o.body
    (option_body h) s.pktInfo
  have hlen : ((s.pkt (s.optionParserPtr + 1)).toNat : ℤ) = o.body.length := by
    rw [hoctet, Tlv.Opt.toNat_len]
  rw [hstep, agentOptionStep, if_neg hgi]
  simp only [if_pos hop, hlen, Scan.absorb, if_pos hstrip]
  rcases hresult : dhcpRelayValidateAgentOption host s.pkt (s.optionParserPtr + 2) o.body.length
    ifName s.pktInfo cfg.rId with ⟨status, pktInfo⟩
  rw [hresult] at hstatus
  simp only at hstatus
  subst hstatus
  -- the option is skipped, so it goes and what follows moves up
  have hskip : s.optionParserPtr + (s.pkt (s.optionParserPtr + 1)).toNat + dhcpOptionHeaderLength
      = s.optionParserPtr + o.size := by
    rw [hlen, Tlv.Opt.size, dhcpOptionHeaderLength]
    push_cast
    ring
  cases hverdict : agentOptionStatus host ifName cfg.rId o.body with
  | invalid => exact ⟨fun _ => ⟨_, rfl⟩, fun hne => absurd rfl hne⟩
  | mismatch =>
    refine ⟨fun heq => absurd heq (by decide), fun _ => ⟨_, rfl, ⟨rfl, rfl, hskip, rfl⟩, ?_⟩⟩
    simp [Scan.skipOption]
  | ok =>
    refine ⟨fun heq => absurd heq (by decide), fun _ => ⟨_, rfl, ⟨rfl, rfl, hskip, rfl⟩, ?_⟩⟩
    simp [Scan.skipOption]

end round

/-! ## The loop -/

/-- A scan of a reply with the items ahead of the parser pointer. -/
structure ReplyAhead (dhcp : ℤ) (s : Scan) (shift : ℕ) (items : List DhcpItem) : Prop where
  line : InLine (dhcp + optionsOff + magicLen) s shift items
  op : s.pkt (dhcp + opOff) = bootreply
  giaddr : ipAt s.pkt (dhcp + giaddrOff) ≠ 0
  typed : Typed s.isDhcp items

namespace ReplyAhead

variable {cfg : FeatureConfig} {host : Host} {ifName : CString} {dhcp max : ℤ} {s s' : Scan}
variable {shift : ℕ} {item : DhcpItem} {items before : List DhcpItem}

/-- The items behind the first one are still ahead after its round. -/
theorem next (h : ReplyAhead dhcp s shift (item :: items)) (hs : (s.absorb item).SamePlace s') :
    ReplyAhead dhcp s' (shiftAfter shift s.isDhcp item) items := by
  obtain ⟨hop, hgi⟩ := h.line.absorb_fields
  refine ⟨h.line.absorb.samePlace hs, ?_, ?_, ?_⟩
  · rw [hs.pkt, hop]
    exact h.op
  · rw [hs.pkt, hgi]
    exact h.giaddr
  · rw [hs.isDhcp]
    exact typed_cons s h.typed

/-- The round for the first item, if it is not an option judged invalid. -/
theorem step (max : ℤ) (h : ReplyAhead dhcp s shift (item :: items))
    (hlengths : LengthsKept shift s.isDhcp (item :: before))
    (hvalid : judged host ifName cfg.rId .invalid item = false) :
    ∃ s', optionStep cfg host ifName dhcp max s = .next s' ∧ (s.absorb item).SamePlace s' ∧
      s'.goodAgentOption = (s.goodAgentOption || judged host ifName cfg.rId .ok item) := by
  have hbytes := h.line.bytes_cons.1
  cases item with
  | pad =>
    rw [Tlv.Item.encode, List.length_singleton, slice_succ] at hbytes
    refine ⟨_, optionStep_pad (List.cons.inj hbytes).1, ⟨rfl, rfl, rfl, rfl⟩, ?_⟩
    rw [judged, Bool.or_false]
    rfl
  | opt o =>
    -- a well-formed reply has its agent options behind the message type
    by_cases hagent : o.tag = dhcpAgentOptions
    · have hverdict : agentOptionStatus host ifName cfg.rId o.body ≠ .invalid := by
        simpa [judged, hagent] using hvalid
      obtain ⟨s', hstep, hplace, hgood⟩ :=
        (optionStep_agent_reply hbytes h.op h.giaddr (h.typed.1 hagent) hagent).2 hverdict
      refine ⟨s', hstep, hplace, ?_⟩
      rw [hgood]
      simp [judged, hagent]
    · have hstay : ¬ Strips s.isDhcp o := by simp [Strips, hagent]
      unfold LengthsKept at hlengths
      rw [if_neg hstay] at hlengths
      obtain ⟨s', hstep, hplace, hgood⟩ :=
        optionStep_keep_reply hbytes h.line.ptr hlengths.1 h.op hstay
      refine ⟨s', hstep, hplace, ?_⟩
      rw [hgood]
      simp [judged, hagent]

/-- The loop passes items without an option judged invalid, one a round. -/
theorem optionLoop_eq (h : ReplyAhead dhcp s shift (before ++ items))
    (hlengths : LengthsKept shift s.isDhcp before)
    (hmax : s.optionParserPtr + (Tlv.encode before).length ≤ max)
    (hvalid : ∀ item ∈ before, judged host ifName cfg.rId .invalid item = false) (rounds : ℕ) :
    ∃ s' shift', optionLoop cfg host ifName dhcp max (before.length + rounds) s
        = optionLoop cfg host ifName dhcp max rounds s' ∧
      (s.absorbAll before).SamePlace s' ∧ ReplyAhead dhcp s' shift' items ∧
      s'.goodAgentOption = (s.goodAgentOption || before.any (judged host ifName cfg.rId .ok)) := by
  induction before generalizing s shift with
  | nil => exact ⟨s, shift, by rw [List.length_nil, Nat.zero_add], ⟨rfl, rfl, rfl, rfl⟩, h, by simp⟩
  | cons item before ih =>
    -- every item takes at least one octet, so a round is left for it
    have hpos : 0 < item.encode.length := by
      cases item with
      | pad => exact Nat.one_pos
      | opt o => exact Nat.succ_pos _
    have hcons : Tlv.encode (item :: before) = item.encode ++ Tlv.encode before := rfl
    rw [hcons, List.length_append] at hmax
    obtain ⟨s₁, hstep, hplace, hgood⟩ := h.step max hlengths
      (hvalid item List.mem_cons_self)
    have hptr : s₁.optionParserPtr = s.optionParserPtr + item.encode.length := by
      rw [hplace.optionParserPtr, InLine.absorb_optionParserPtr]
    obtain ⟨s', shift', hloop, hplace', hahead, hgood'⟩ := ih (h.next hplace)
      (by rw [hplace.isDhcp]; exact lengthsKept_cons s hlengths) (by omega)
      fun x hx => hvalid x (List.mem_cons_of_mem _ hx)
    refine ⟨s', shift', ?_, ?_, hahead, ?_⟩
    · rw [List.length_cons, show before.length + 1 + rounds = before.length + rounds + 1 by omega,
        optionLoop, if_pos (by omega), hstep]
      exact hloop
    · rw [absorbAll_cons]
      exact (Scan.SamePlace.absorbAll hplace before).trans hplace'
    · rw [hgood', hgood, List.any_cons, Bool.or_assoc]

end ReplyAhead

/-! ## The reply -/

/-- A reply from a server: its options are `items` and END, with anything after END up to
the UDP length. -/
structure Reply where
  cfg : FeatureConfig
  host : Host
  pkt : Packet
  pktInfo : Option82Options
  ifIndex : UInt32
  ifName : CString
  bootpGw : IpAddress
  items : List DhcpItem
  rest : List UInt8
  enabled : cfg.enabled .dhcpRelayOption82 = true
  op : dhcpOp pkt = bootreply
  cookie : slice pkt (dhcp pkt + optionsOff) magicLen = dhcpCookie
  giaddr : giaddr pkt ≠ 0
  length : dhcpPktlen pkt = optionsStart + (Tlv.encode items ++ endTag :: rest).length
  bytes : slice pkt (dhcp pkt + optionsStart) (Tlv.encode items ++ endTag :: rest).length
    = Tlv.encode items ++ endTag :: rest
  messageType : MessageTypeFirst (Tlv.options items)

namespace Reply

variable (r : Reply)

/-- What the function does with the reply. -/
def outcome : Option82Outcome :=
  processDhcpRelayOption82Message r.cfg r.host r.pkt r.pktInfo r.ifIndex r.ifName r.bootpGw

/-- Some option 82 of the reply gets this verdict. -/
def Judged (status : AgentOptionStatus) : Prop :=
  ∃ o ∈ Tlv.options r.items, o.tag = dhcpAgentOptions ∧
    agentOptionStatus r.host r.ifName r.cfg.rId o.body = status

/-- The replies that are not to be relayed. -/
def Rejected : Prop :=
  r.Judged .invalid ∨
    (r.cfg.enabled .dhcpRelayOption82Validate = true ∧ ¬ r.Judged .ok)

/-- The reply is dropped exactly if it is to be, and otherwise its options are all there, in
order, without any option 82. -/
def Filters : Prop :=
  (r.outcome.result = .dropped ↔ r.Rejected) ∧
    (¬ r.Rejected → r.outcome.result = .valid ∧
      parsedOptions r.outcome.pkt = some (withoutAgentOptions (Tlv.options r.items)))

/-- The items that are looked at: those in front of the first option judged invalid. -/
def seen : List DhcpItem := r.items.takeWhile fun item =>
  ¬ judged r.host r.ifName r.cfg.rId .invalid item

theorem judged_iff (status : AgentOptionStatus) :
    (∃ item ∈ r.items, judged r.host r.ifName r.cfg.rId status item = true)
      ↔ r.Judged status := by
  constructor
  · intro hitem
    obtain ⟨item, hmem, hjudged⟩ := hitem
    cases item with
    | pad => exact absurd hjudged (by simp [judged])
    | opt o =>
      refine ⟨o, List.mem_filterMap.mpr ⟨.opt o, hmem, rfl⟩, ?_⟩
      simpa [judged] using hjudged
  · intro hoption
    obtain ⟨o, hmem, htag, hstatus⟩ := hoption
    obtain ⟨item, hitem, heq⟩ := List.mem_filterMap.mp hmem
    cases item with
    | pad => exact absurd heq (by simp)
    | opt o' =>
      obtain rfl := Option.some.inj heq
      exact ⟨.opt o', hitem, by simp [judged, htag, hstatus]⟩

/-- The address of the first option. -/
def base : ℤ := dhcp r.pkt + optionsStart

theorem optionsMax_eq :
    optionsMax r.pkt = r.base + ((Tlv.encode r.items).length + 1 + r.rest.length : ℕ) := by
  rw [optionsMax_of_length r.length, List.length_append, List.length_cons, base]
  push_cast
  ring

/-- The items and the END behind them in the received message. -/
theorem bytes_items :
    slice r.pkt r.base (Tlv.encode r.items).length = Tlv.encode r.items ∧
      r.pkt (r.base + (Tlv.encode r.items).length) = endTag :=
  slice_items_end r.bytes

theorem start_ahead : ReplyAhead (dhcp r.pkt) (Scan.start r.pkt r.pktInfo) 0 r.items where
  line := ⟨r.bytes_items.1, by simp [Scan.start], Int.le_refl _⟩
  op := r.op
  giaddr := r.giaddr
  typed := typed_of_messageType (Or.inr r.messageType)

/-- The option loop on the reply, with as many rounds as there are option bytes. -/
theorem scanOptions_eq : scanOptions r.cfg r.host r.ifName r.pkt r.pktInfo =
    optionLoop r.cfg r.host r.ifName (dhcp r.pkt) (optionsMax r.pkt)
      ((Tlv.encode r.items).length + 1 + r.rest.length) (Scan.start r.pkt r.pktInfo) := by
  have hmax := r.optionsMax_eq
  have hstart : (Scan.start r.pkt r.pktInfo).optionParserPtr = r.base := rfl
  have hrounds : (optionsMax r.pkt - r.base).toNat
      = (Tlv.encode r.items).length + 1 + r.rest.length := by omega
  unfold scanOptions
  simp only [hstart, hrounds]

theorem outcome_of_ret {result : Option82Result} {s : Scan}
    (h : scanOptions r.cfg r.host r.ifName r.pkt r.pktInfo = .ret result s) :
    r.outcome = ⟨result, s.pkt, s.pktInfo⟩ := by
  unfold outcome processDhcpRelayOption82Message
  simp only [r.enabled, r.cookie, h, ne_eq, not_true_eq_false, if_false]

theorem outcome_of_next {s : Scan}
    (h : scanOptions r.cfg r.host r.ifName r.pkt r.pktInfo = .next s) :
    r.outcome = finishOption82 r.cfg r.host r.ifIndex r.ifName r.bootpGw (dhcp r.pkt) s := by
  unfold outcome processDhcpRelayOption82Message
  simp only [r.enabled, r.cookie, h, ne_eq, not_true_eq_false, if_false]

/-- None of the items that are looked at is judged invalid, and the next one is. -/
theorem seen_split :
    (∀ item ∈ r.seen, judged r.host r.ifName r.cfg.rId .invalid item = false) ∧
      ∃ after, r.seen ++ after = r.items ∧ (∀ item ∈ after.head?,
        judged r.host r.ifName r.cfg.rId .invalid item = true) := by
  constructor
  · intro item hitem
    simpa using List.mem_takeWhile_imp hitem
  · refine ⟨_, List.takeWhile_append_dropWhile, ?_⟩
    intro item hitem
    have hnot := List.head?_dropWhile_not
      (fun item => ¬ judged r.host r.ifName r.cfg.rId .invalid item) r.items
    rw [hitem] at hnot
    simpa using hnot

/-- The loop up to the end of the items that are looked at. -/
theorem loop_seen (hlengths : LengthsKept 0 false r.seen) {after : List DhcpItem}
    (hsplit : r.seen ++ after = r.items) :
    ∃ s shift rounds, scanOptions r.cfg r.host r.ifName r.pkt r.pktInfo
        = optionLoop r.cfg r.host r.ifName (dhcp r.pkt) (optionsMax r.pkt) (rounds + 1) s ∧
      ((Scan.start r.pkt r.pktInfo).absorbAll r.seen).SamePlace s ∧
      ReplyAhead (dhcp r.pkt) s shift after ∧
      s.optionParserPtr = r.base + (Tlv.encode r.seen).length ∧
      s.goodAgentOption = r.seen.any (judged r.host r.ifName r.cfg.rId .ok) := by
  have hlen : (Tlv.encode r.items).length
      = (Tlv.encode r.seen).length + (Tlv.encode after).length := by
    rw [← List.length_append, ← Tlv.encode_append, hsplit]
  have hcount := Tlv.length_le_length_encode r.seen
  have hmax := r.optionsMax_eq
  have hstart : (Scan.start r.pkt r.pktInfo).optionParserPtr = r.base := rfl
  have hahead := r.start_ahead
  rw [← hsplit] at hahead
  -- the loop has more rounds than there are items up to the first bad option
  obtain ⟨rounds, hrounds⟩ : ∃ rounds, (Tlv.encode r.items).length + 1 + r.rest.length
      = r.seen.length + (rounds + 1) :=
    ⟨(Tlv.encode r.items).length + r.rest.length - r.seen.length, by omega⟩
  obtain ⟨s, shift, hloop, hplace, hahead', hgood⟩ := @ReplyAhead.optionLoop_eq r.cfg r.host
    r.ifName (dhcp r.pkt) (optionsMax r.pkt) _ 0 after r.seen hahead hlengths
    (by rw [hstart]; omega) r.seen_split.1 (rounds + 1)
  refine ⟨s, shift, rounds, by rw [scanOptions_eq, hrounds, hloop], hplace, hahead', ?_, ?_⟩
  · rw [hplace.optionParserPtr, absorbAll_optionParserPtr, hstart]
  · rw [hgood]
    exact Bool.false_or _

/-- An option judged invalid ends the loop. -/
theorem result_of_invalid (hlengths : LengthsKept 0 false r.seen) (h : r.Judged .invalid) :
    r.outcome.result = .dropped := by
  obtain ⟨hvalid, after, hsplit, hhead⟩ := r.seen_split
  obtain ⟨bad, hbad, hjudged⟩ := (r.judged_iff .invalid).mpr h
  -- the first bad option is the one the items seen end in front of
  cases after with
  | nil =>
    rw [← hsplit, List.append_nil] at hbad
    rw [hvalid bad hbad] at hjudged
    exact absurd hjudged (by decide)
  | cons item after =>
    have hitem := hhead item rfl
    have hlen : (Tlv.encode r.items).length
        = (Tlv.encode r.seen).length + (Tlv.encode (item :: after)).length := by
      rw [← List.length_append, ← Tlv.encode_append, hsplit]
    have hmax := r.optionsMax_eq
    obtain ⟨s, shift, rounds, hloop, -, hahead, hptr, -⟩ := r.loop_seen hlengths hsplit
    cases item with
    | pad => exact absurd hitem (by simp [judged])
    | opt o =>
      obtain ⟨hagent, hstatus⟩ : o.tag = dhcpAgentOptions ∧
          agentOptionStatus r.host r.ifName r.cfg.rId o.body = .invalid := by
        simpa [judged] using hitem
      obtain ⟨s', hstep⟩ := (@optionStep_agent_reply r.cfg r.host r.ifName (dhcp r.pkt)
        (optionsMax r.pkt) s o hahead.line.bytes_cons.1 hahead.op hahead.giaddr
        (hahead.typed.1 hagent) hagent).1 hstatus
      rw [optionLoop, if_pos (by rw [hptr]; omega), hstep] at hloop
      rw [r.outcome_of_ret hloop]

/-- The bytes of the items that stay. -/
def kept : List UInt8 := Tlv.encode (strip false r.items)

/-- Without an option judged invalid the loop reads all items and the END. -/
theorem outcome_of_valid (hlengths : LengthsKept 0 false r.seen) (h : ¬ r.Judged .invalid) :
    ∃ s : Scan, r.outcome
        = finishOption82 r.cfg r.host r.ifIndex r.ifName r.bootpGw (dhcp r.pkt) s ∧
      s.pkt = store r.pkt r.base (r.kept ++ [endTag]) ∧ s.isDhcp = true ∧
      (s.goodAgentOption = true ↔ r.Judged .ok) := by
  obtain ⟨-, after, hsplit, hhead⟩ := r.seen_split
  have hall : r.seen = r.items := by
    cases after with
    | nil => rw [← hsplit, List.append_nil]
    | cons item after =>
      exact absurd ((r.judged_iff .invalid).mp
        ⟨item, hsplit ▸ List.mem_append_right _ List.mem_cons_self, hhead item rfl⟩) h
  have hafter : r.seen ++ [] = r.items := by rw [List.append_nil, hall]
  obtain ⟨s, shift, rounds, hloop, hplace, hahead, hptr, hgood⟩ := r.loop_seen hlengths hafter
  rw [hall] at hplace hptr hgood
  obtain ⟨hsp, hpkt⟩ := absorbAll_written (Scan.start r.pkt r.pktInfo) r.items
  have hstart : (Scan.start r.pkt r.pktInfo).sp = r.base := rfl
  have hspkt : s.pkt = store r.pkt r.base r.kept := hplace.pkt.trans hpkt
  have hssp : s.sp = r.base + r.kept.length := hplace.sp.trans hsp
  have hkept : r.kept.length ≤ (Tlv.encode r.items).length := length_encode_strip_le false r.items
  have hend : s.pkt s.optionParserPtr = endTag := by
    rw [hspkt, hptr, store_of_ge _ (by omega)]
    exact r.bytes_items.2
  have hmax := r.optionsMax_eq
  have hbytes : store s.pkt s.sp [endTag] = store r.pkt r.base (r.kept ++ [endTag]) := by
    rw [hspkt, hssp, store_store_append]
  refine ⟨{ s with pkt := store s.pkt s.sp [endTag], sp := s.sp + 1
                   optionParserPtr := optionsMax r.pkt }, ?_, hbytes, ?_, ?_⟩
  · rw [optionLoop, if_pos (by rw [hptr]; omega), optionStep_end hend] at hloop
    apply r.outcome_of_next
    rw [hloop]
    -- the loop ends, since END moves the parser pointer to its limit
    cases rounds with
    | zero => rfl
    | succ rounds => exact if_neg (Int.lt_irrefl _)
  · obtain ⟨before, o, after, heq, htype, -⟩ := r.messageType
    show s.isDhcp = true
    rw [hplace.isDhcp, absorbAll_isDhcp, heq]
    simp [htype]
  · show s.goodAgentOption = true ↔ _
    rw [hgood, List.any_eq_true]
    exact r.judged_iff .ok

/-- Writing the items that stay and END changes neither where the message is nor its length. -/
theorem front_of_kept {pkt : Packet} (h : pkt = store r.pkt r.base (r.kept ++ [endTag])) :
    dhcp pkt = dhcp r.pkt ∧ dhcpPktlen pkt = dhcpPktlen r.pkt := by
  have hbase : r.base = dhcp r.pkt + 240 := rfl
  have hudph : 0 ≤ udph r.pkt := Int.natCast_nonneg _
  have hdhcp : dhcp r.pkt = udph r.pkt + 8 := rfl
  have hfront : ∀ a, a < r.base → pkt a = r.pkt a := by
    intro a ha
    rw [h, store_of_lt _ ha]
  have hdhcp' : dhcp pkt = dhcp r.pkt := dhcp_congr (hfront 0 (by omega))
  have hudph' : udph pkt = udph r.pkt := by
    unfold dhcp at hdhcp'
    omega
  have hulen : ntohs pkt (udph r.pkt + uhUlenOff) = ntohs r.pkt (udph r.pkt + uhUlenOff) := by
    unfold ntohs
    rw [slice_congr pkt r.pkt]
    intro i hi
    exact hfront _ (by unfold uhUlenOff; omega)
  refine ⟨hdhcp', ?_⟩
  rw [dhcpPktlen, dhcpPktlen, hudph', hulen]

/-- What can be read of the message once the items that stay and END were written. -/
theorem parsed_of_kept {pkt : Packet} (h : pkt = store r.pkt r.base (r.kept ++ [endTag])) :
    parsedOptions pkt = some (withoutAgentOptions (Tlv.options r.items)) := by
  obtain ⟨hdhcp', hlen⟩ := r.front_of_kept h
  have hkept : r.kept.length ≤ (Tlv.encode r.items).length := length_encode_strip_le false r.items
  obtain ⟨tail, htail⟩ : ∃ tail, (dhcpPktlen r.pkt - optionsStart).toNat
      = (r.kept ++ [endTag]).length + tail := by
    refine ⟨(dhcpPktlen r.pkt - optionsStart).toNat - (r.kept ++ [endTag]).length, ?_⟩
    rw [r.length, List.length_append, List.length_append, List.length_cons, List.length_singleton]
    omega
  unfold parsedOptions
  rw [hdhcp', hlen, htail, slice_add]
  show Option.map _ (Tlv.parse dhcpFormat (slice pkt r.base _ ++ _)) = _
  rw [h, slice_store_self, List.append_assoc, ← h, kept]
  show Option.map _ (Tlv.parse dhcpFormat (_ ++ dhcpFormat.stop :: _)) = _
  rw [Tlv.parse_encode, Option.map_some,
    options_strip (typed_of_messageType (Or.inr r.messageType))]

end Reply

/-- If the moves keep the length octets of the options in front of the first one judged
invalid, a reply is dropped exactly if it is to be, and otherwise loses its relay agent
options and nothing else. -/
theorem reply_filters (r : Reply) (hlengths : LengthsKept 0 false r.seen) : r.Filters := by
  by_cases hinvalid : r.Judged .invalid
  · have hrejected : r.Rejected := Or.inl hinvalid
    exact ⟨iff_of_true (r.result_of_invalid hlengths hinvalid) hrejected,
      fun hnot => absurd hrejected hnot⟩
  · obtain ⟨s, hout, hpkt, hdhcp, hgood⟩ := r.outcome_of_valid hlengths hinvalid
    -- the options are written behind the opcode
    have hop : s.pkt (dhcp r.pkt + opOff) = bootreply := by
      have hbase : r.base = dhcp r.pkt + 240 := rfl
      rw [hpkt, store_of_lt _ (by unfold opOff; omega)]
      exact r.op
    unfold finishOption82 at hout
    rw [if_neg (by simp [hdhcp]), if_pos hop] at hout
    -- without a bad option only the lack of a good one can drop the reply
    by_cases hdrop : ¬ s.goodAgentOption ∧ r.cfg.enabled .dhcpRelayOption82Validate = true
    · have hrejected : r.Rejected := Or.inr ⟨hdrop.2, mt hgood.mpr (by simpa using hdrop.1)⟩
      rw [if_pos hdrop] at hout
      refine ⟨iff_of_true (by rw [hout]) hrejected, fun hnot => absurd hrejected hnot⟩
    · have hrelayed : ¬ r.Rejected := by
        intro hrejected
        cases hrejected with
        | inl hbad => exact hinvalid hbad
        | inr hbad => exact hdrop ⟨mt hgood.mp hbad.2, hbad.1⟩
      rw [if_neg hdrop] at hout
      refine ⟨iff_of_false (by rw [hout]; simp) hrelayed, fun _ => ⟨by rw [hout], ?_⟩⟩
      rw [hout]
      exact r.parsed_of_kept hpkt

/-- A reply over a plain IP header, with zeros where nothing else is said. -/
def replyPacket (giaddr options : List UInt8) : Packet :=
  store (requestPacket giaddr options) 28 [bootreply]

/-- A DHCPOFFER message type. -/
def offerOption : DhcpOpt where
  tag := dhcpMsgtype
  body := [2]
  tag_ne_pad := dhcpMsgtype_ne_pad
  tag_ne_stop := dhcpMsgtype_ne_stop
  length_le := by decide

/-- A server echoes the option 82 of another relay agent behind the client identifier. -/
def echoedReply : Reply where
  cfg := ⟨0x000a, .keep, .ip⟩
  host := emptyHost
  pkt := replyPacket [10, 0, 0, 1]
    [53, 1, 2, 61, 7, 1, 0, 0x1b, 0x2c, 0x3d, 0x4e, 0x5f, 82, 2, 1, 0, 255]
  pktInfo := ⟨0, 0⟩
  ifIndex := 3
  ifName := ['1']
  bootpGw := 0
  items := [.opt offerOption, .opt clientIdOption, .opt otherAgentOption]
  rest := []
  enabled := by decide
  op := by decide +kernel
  cookie := by decide +kernel
  giaddr := by decide +kernel
  length := by decide +kernel
  bytes := by decide +kernel
  messageType := by
    exact ⟨[], offerOption, [clientIdOption, otherAgentOption], rfl, rfl, fun _ h => nomatch h⟩

/-- The same options with the option 82 in front of the client identifier. -/
def overlappedReply : Reply where
  cfg := ⟨0x000a, .keep, .ip⟩
  host := emptyHost
  pkt := replyPacket [10, 0, 0, 1]
    [53, 1, 2, 82, 2, 1, 0, 61, 7, 1, 0, 0x1b, 0x2c, 0x3d, 0x4e, 0x5f, 255]
  pktInfo := ⟨0, 0⟩
  ifIndex := 3
  ifName := ['1']
  bootpGw := 0
  items := [.opt offerOption, .opt otherAgentOption, .opt clientIdOption]
  rest := []
  enabled := by decide
  op := by decide +kernel
  cookie := by decide +kernel
  giaddr := by decide +kernel
  length := by decide +kernel
  bytes := by decide +kernel
  messageType := by
    exact ⟨[], offerOption, [otherAgentOption, clientIdOption], rfl, rfl, fun _ h => nomatch h⟩

theorem reply_filters_echoed : echoedReply.Filters := by
  have hseen : echoedReply.seen = echoedReply.items := by decide +kernel
  apply reply_filters
  rw [hseen]
  exact ⟨Or.inl rfl, Or.inl rfl, trivial⟩

/-- The fourth byte of the identifier is taken for its length: the client cannot read the
options of the reply. -/
theorem reply_misreads_length : ¬ ∀ r : Reply, r.Filters := by
  intro h
  have hrelayed : ¬ overlappedReply.Rejected := by
    unfold Reply.Rejected Reply.Judged
    decide +kernel
  have hparsed := ((h overlappedReply).2 hrelayed).2
  revert hparsed
  decide +kernel

end Udpfwd
end IpApps
