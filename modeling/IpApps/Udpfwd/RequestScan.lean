import IpApps.Udpfwd.AgentOption
import IpApps.Udpfwd.OptionScan

/-!
# What becomes of a request

A request whose options are pads and complete options, up to END or up to the end of the
message. The loop returns at one of them, or it reads all of them. Then the new option goes
where the last pad or END is, if there is room, and otherwise the message ends there.
-/

namespace IpApps
namespace Udpfwd

open Memory Endian

/-- What the function is called with beside the packet, and the configuration and the host. -/
structure Option82Call where
  cfg : FeatureConfig
  host : Host
  pktInfo : Option82Options
  ifIndex : UInt32
  ifName : CString
  bootpGw : IpAddress

/-- What the function does with a packet. -/
def Option82Call.process (c : Option82Call) (pkt : Packet) : Option82Outcome :=
  processDhcpRelayOption82Message c.cfg c.host pkt c.pktInfo c.ifIndex c.ifName c.bootpGw

section process

variable {c : Option82Call} {pkt : Packet}

/-- The function works on a packet that holds the cookie, if the feature is enabled. -/
structure Works (c : Option82Call) (pkt : Packet) : Prop where
  enabled : c.cfg.enabled .dhcpRelayOption82 = true
  cookie : slice pkt (dhcp pkt + optionsOff) magicLen = dhcpCookie

/-- Otherwise nothing is written. -/
theorem process_of_not_works (h : ¬ Works c pkt) :
    (c.process pkt).result = .noop ∧ (c.process pkt).pkt = pkt := by
  unfold Option82Call.process processDhcpRelayOption82Message
  by_cases hon : c.cfg.enabled .dhcpRelayOption82 = true
  · rw [if_neg (not_not_intro hon), if_pos fun hcookie => h ⟨hon, hcookie⟩]
    exact ⟨rfl, rfl⟩
  · rw [if_pos hon]
    exact ⟨rfl, rfl⟩

theorem process_of_works (h : Works c pkt) : c.process pkt =
    match scanOptions c.cfg c.host c.ifName pkt c.pktInfo with
    | .ret result s => ⟨result, s.pkt, s.pktInfo⟩
    | .next s => finishOption82 c.cfg c.host c.ifIndex c.ifName c.bootpGw (dhcp pkt) s := by
  unfold Option82Call.process processDhcpRelayOption82Message
  rw [if_neg (not_not_intro h.enabled)]
  exact if_neg (not_not_intro h.cookie)

end process

/-- A request whose options are `items`, with END and anything else behind them, or nothing. -/
structure IsRequest (pkt : Packet) (items : List DhcpItem) (tail : List UInt8) : Prop where
  op : dhcpOp pkt = bootrequest
  length : dhcpPktlen pkt = optionsStart + (Tlv.encode items ++ tail).length
  bytes : slice pkt (dhcp pkt + optionsStart) (Tlv.encode items ++ tail).length
    = Tlv.encode items ++ tail
  ends : ∀ b ∈ tail.head?, b = endTag

/-! ## The message that is sent on -/

/-- A packet whose message holds these option bytes and nothing behind them, and whose lengths
say so. -/
structure HoldsOptions (pkt pkt' : Packet) (options : List UInt8) : Prop where
  first : pkt' 0 = pkt 0
  length : dhcpPktlen pkt' = optionsStart + options.length
  bytes : slice pkt' (dhcp pkt + optionsStart) options.length = options
  ipLen : optionsStart + options.length + udphdrLength + ipHl pkt * 4 < 2 ^ 16 →
    ntohs pkt' ipLenOff = optionsStart + options.length + udphdrLength + ipHl pkt * 4

/-- The lengths are set to the end of the options. -/
theorem updateLengths_holds {pkt pkt' : Packet} {options : List UInt8} (hfirst : pkt' 0 = pkt 0)
    (hbytes : slice pkt' (dhcp pkt + optionsStart) options.length = options)
    (hpos : 1 ≤ options.length) (hfit : optionsStart + options.length + udphdrLength < 2 ^ 16) :
    HoldsOptions pkt (updateLengths (dhcp pkt) pkt' (dhcp pkt + optionsStart + options.length))
      options := by
  have hdhcp : dhcp pkt' = dhcp pkt := dhcp_congr hfirst
  have hhl : ipHl pkt' = ipHl pkt := by
    unfold ipHl
    rw [hfirst]
  have hudph : dhcp pkt' = udph pkt' + udphdrLength := rfl
  have hpos' : 0 ≤ udph pkt' := Int.natCast_nonneg _
  have hlow : minbootplen ≤ optionsStart + options.length := by
    unfold minbootplen optionsStart
    omega
  rw [← hdhcp] at hbytes ⊢
  rw [show dhcp pkt' + optionsStart + options.length
    = dhcp pkt' + (optionsStart + options.length : ℕ) by push_cast; ring]
  refine ⟨?_, ?_, ?_, ?_⟩
  · rw [updateLengths_first pkt' (by unfold optionsStart; omega), hfirst]
  · rw [dhcpPktlen_updateLengths rfl hlow hfit]
    push_cast
    rfl
  · rw [← hdhcp]
    conv_rhs => rw [← hbytes]
    apply slice_congr
    intro i _
    apply updateLengths_behind rfl hlow (by omega)
    · omega
    · unfold ipSumOff optionsStart
      omega
  · intro hip
    rw [← hhl] at hip ⊢
    exact ipLen_updateLengths rfl hlow hip

/-! ## Where the new option goes -/

/-- The option bytes after the loop: those of the items that stay, and END. -/
def written (items : List DhcpItem) (tail : List UInt8) : List UInt8 :=
  Tlv.encode (strip false items) ++ tail.take 1

/-- How far behind the cookie the write pointer is when the lengths are checked: at the pad
that ends the options, or behind all that was written. -/
def endOffset (items : List DhcpItem) (tail : List UInt8) : ℕ :=
  if items.getLast? = some .pad then (Tlv.encode (strip false items)).length - 1
  else (written items tail).length

/-- The room the code asks for, in the receive buffer and in the size the client allows, with
the write pointer `m` bytes behind the cookie. -/
def RoomAt (m : ℕ) (items : List DhcpItem) (rId : RemoteId) : Prop :=
  let packlen := optionsStart + m + dhcpRelayGetOption82Len rId
  packlen < recvBufferSize ∧
    (maxMsgSizeAfter 0 (Tlv.options items) ≠ 0 →
      packlen ≤ maxMsgSizeAfter 0 (Tlv.options items))

/-- Where the new option starts behind the cookie: one byte earlier if that byte is 255. -/
def optionOffset (items : List DhcpItem) (tail : List UInt8) : ℕ :=
  if ((written items tail).take (endOffset items tail)).getLast? = some endTag then
    endOffset items tail - 1
  else endOffset items tail

theorem endOffset_le (items : List DhcpItem) (tail : List UInt8) :
    endOffset items tail ≤ (written items tail).length := by
  unfold endOffset written
  rw [List.length_append]
  split <;> omega

theorem optionOffset_le_endOffset (items : List DhcpItem) (tail : List UInt8) :
    optionOffset items tail ≤ endOffset items tail := by
  unfold optionOffset
  split <;> omega

theorem optionOffset_le (items : List DhcpItem) (tail : List UInt8) :
    optionOffset items tail ≤ (written items tail).length ∧
      (written items tail).length ≤ optionOffset items tail + 3 := by
  have hle := endOffset_le items tail
  have hfar : (written items tail).length ≤ endOffset items tail + 2 := by
    unfold endOffset written
    rw [List.length_append, List.length_take]
    split <;> omega
  unfold optionOffset
  split <;> omega

/-! ## The new option -/

/-- The relay agent option as it stands in the packet afterwards. -/
def Option82Call.newOption (c : Option82Call) (pkt : Packet) (sp : ℤ) : DhcpOpt where
  tag := dhcpAgentOptions
  body := agentOptionBody c.ifIndex
    (standingRemoteId c.host c.ifName c.bootpGw c.cfg.rId c.pktInfo pkt sp)
  tag_ne_pad := dhcpAgentOptions_ne_pad
  tag_ne_stop := dhcpAgentOptions_ne_stop
  length_le := by
    have hlen := remoteIdLength_le c.cfg.rId
    rw [length_agentOptionBody, length_standingRemoteId]
    omega

/-- The option that is added to a request. -/
def Option82Call.addedOption (c : Option82Call) (pkt : Packet) (items : List DhcpItem)
    (tail : List UInt8) : DhcpOpt :=
  c.newOption pkt (dhcp pkt + optionsStart + optionOffset items tail)

theorem Option82Call.encode_newOption (c : Option82Call) (pkt : Packet) (sp : ℤ) :
    (c.newOption pkt sp).encode = dhcpAgentOptions :: UInt8.ofNat (remoteIdLength c.cfg.rId + 8)
      :: agentOptionBody c.ifIndex
        (standingRemoteId c.host c.ifName c.bootpGw c.cfg.rId c.pktInfo pkt sp) := by
  rw [Tlv.Opt.encode, Tlv.Opt.len]
  simp only [newOption, length_agentOptionBody, length_standingRemoteId]

theorem Option82Call.size_newOption (c : Option82Call) (pkt : Packet) (sp : ℤ) :
    (c.newOption pkt sp).size = remoteIdLength c.cfg.rId + 10 := by
  rw [Tlv.Opt.size]
  simp only [newOption, length_agentOptionBody, length_standingRemoteId]

/-- The message type stays. -/
theorem two_le_of_messageType {items : List DhcpItem}
    (hmsg : ∃ o ∈ Tlv.options items, o.tag = dhcpMsgtype) (isDhcp : Bool) :
    2 ≤ (Tlv.encode (strip isDhcp items)).length := by
  induction items generalizing isDhcp with
  | nil => simp at hmsg
  | cons item items ih =>
    cases item with
    | pad =>
      have hrest := ih hmsg isDhcp
      simp only [strip, Tlv.encode_pad, List.length_cons]
      omega
    | opt o =>
      unfold strip
      split
      · -- the message type is not a relay agent option
        rename_i hstrip
        have htag : o.tag = dhcpAgentOptions := by simp [Strips] at hstrip; exact hstrip.2
        apply ih
        obtain ⟨o', ho', htype⟩ := hmsg
        rcases List.mem_cons.mp ho' with rfl | hrest
        · rw [htag] at htype
          exact absurd htype (by decide)
        · exact ⟨o', hrest, htype⟩
      · simp only [Tlv.encode_opt, List.length_append, Tlv.Opt.length_encode, Tlv.Opt.size]
        omega

/-! ## The loop on a request -/

/-- The scan after the options and END, if there is one. -/
def afterOptions (pkt : Packet) (pktInfo : Option82Options) (items : List DhcpItem)
    (tail : List UInt8) : Scan :=
  let s := (Scan.start pkt pktInfo).absorbAll items
  if tail = [] then s
  else
    { s with pkt := store s.pkt s.sp [endTag], sp := s.sp + 1
             optionParserPtr := optionsMax pkt }

/-- What reading the options fills in. -/
theorem afterOptions_rest (pkt : Packet) (pktInfo : Option82Options) (items : List DhcpItem)
    (tail : List UInt8) :
    (afterOptions pkt pktInfo items tail).isDhcp
        = (Tlv.options items).any (fun o => o.tag = dhcpMsgtype) ∧
      (afterOptions pkt pktInfo items tail).maxMsgSize
        = maxMsgSizeAfter 0 (Tlv.options items) ∧
      (afterOptions pkt pktInfo items tail).pktInfo = pktInfo ∧
      (afterOptions pkt pktInfo items tail).endPad
        = ((Scan.start pkt pktInfo).absorbAll items).endPad := by
  have hdhcp : ((Scan.start pkt pktInfo).absorbAll items).isDhcp
      = (Tlv.options items).any (fun o => o.tag = dhcpMsgtype) := by
    rw [absorbAll_isDhcp]
    exact Bool.false_or _
  have hsize := absorbAll_maxMsgSize (Scan.start pkt pktInfo) items
  have hinfo := absorbAll_pktInfo (Scan.start pkt pktInfo) items
  unfold afterOptions
  split
  · exact ⟨hdhcp, hsize, hinfo, rfl⟩
  · exact ⟨hdhcp, hsize, hinfo, rfl⟩

namespace IsRequest

variable {pkt : Packet} {items : List DhcpItem} {tail : List UInt8}
variable {cfg : FeatureConfig} {host : Host} {ifName : CString} (pktInfo : Option82Options)

theorem tail_take (h : IsRequest pkt items tail) (hne : tail ≠ []) : tail.take 1 = [endTag] := by
  cases tail with
  | nil => exact absurd rfl hne
  | cons b rest => rw [h.ends b rfl, List.take_succ_cons, List.take_zero]

theorem optionsMax_eq (h : IsRequest pkt items tail) :
    optionsMax pkt = dhcp pkt + optionsStart + (Tlv.encode items).length + tail.length := by
  rw [optionsMax_of_length h.length, List.length_append]
  push_cast
  ring

/-- The whole message is shorter than the UDP length field allows. -/
theorem length_lt (h : IsRequest pkt items tail) :
    optionsStart + (Tlv.encode items).length + tail.length + udphdrLength < 2 ^ 16 := by
  have hlt := ntohs_lt pkt (udph pkt + uhUlenOff)
  have hlen := h.length
  rw [List.length_append] at hlen
  unfold dhcpPktlen at hlen
  omega

theorem written_le (h : IsRequest pkt items tail) :
    optionsStart + (written items tail).length + udphdrLength < 2 ^ 16 := by
  have hlt := h.length_lt
  have hkept := length_encode_strip_le false items
  unfold written
  rw [List.length_append, List.length_take]
  omega

/-- The items, and the END behind them. -/
theorem bytes_items (h : IsRequest pkt items tail) :
    slice pkt (dhcp pkt + optionsStart) (Tlv.encode items).length = Tlv.encode items ∧
      (tail ≠ [] → pkt (dhcp pkt + optionsStart + (Tlv.encode items).length) = endTag) := by
  have hbytes := h.bytes
  rw [List.length_append] at hbytes
  obtain ⟨hitems, htail⟩ := slice_of_append pkt hbytes
  refine ⟨hitems, fun hne => ?_⟩
  cases tail with
  | nil => exact absurd rfl hne
  | cons b rest =>
    rw [List.length_cons, slice_succ] at htail
    rw [(List.cons.inj htail).1]
    exact h.ends b rfl

theorem start_inLine (h : IsRequest pkt items tail) :
    InLine (dhcp pkt + optionsOff + magicLen) (Scan.start pkt pktInfo) 0 items where
  bytes := h.bytes_items.1
  ptr := by simp [Scan.start]
  behind := Int.le_refl _

/-- The loop on a request. -/
theorem scanOptions_eq (h : IsRequest pkt items tail) (hlengths : LengthsKept 0 false items) :
    (GoesOn cfg.policy (giaddr pkt) false items →
      scanOptions cfg host ifName pkt pktInfo = .next (afterOptions pkt pktInfo items tail)) ∧
    (¬ GoesOn cfg.policy (giaddr pkt) false items →
      ∃ before after, items = before ++ after ∧
        (cfg.policy = .keep → strip false before = before) ∧
        ReturnsAt cfg.policy
          (store pkt (dhcp pkt + optionsStart) (Tlv.encode (strip false before)))
          (scanOptions cfg host ifName pkt pktInfo)) := by
  have hmax := h.optionsMax_eq
  have hitems := Tlv.length_le_length_encode items
  have hstart : (Scan.start pkt pktInfo).optionParserPtr = dhcp pkt + optionsStart := rfl
  obtain ⟨rounds, hrounds⟩ : ∃ rounds, (optionsMax pkt - (dhcp pkt + optionsStart)).toNat
      = items.length + rounds :=
    ⟨(optionsMax pkt - (dhcp pkt + optionsStart)).toNat - items.length, by omega⟩
  have hloop := @InLine.optionLoop_eq cfg host ifName (dhcp pkt) (optionsMax pkt) _ 0 items
    (h.start_inLine pktInfo) hlengths h.op (by rw [hstart]; omega) rounds
  have hscan : scanOptions cfg host ifName pkt pktInfo
      = optionLoop cfg host ifName (dhcp pkt) (optionsMax pkt) (items.length + rounds)
          (Scan.start pkt pktInfo) := by
    unfold scanOptions
    simp only [hstart, hrounds]
  rw [hscan]
  refine ⟨fun hgoes => ?_, fun hgoes => ?_⟩
  · rw [hloop.1 hgoes]
    have hptr := absorbAll_optionParserPtr (Scan.start pkt pktInfo) items
    rw [hstart] at hptr
    unfold afterOptions
    by_cases htail : tail = []
    · rw [htail, List.length_nil] at hmax
      rw [if_pos htail, optionLoop_end (by rw [hptr]; omega)]
    · have hpos := List.length_pos_of_ne_nil htail
      obtain ⟨hsp, hpkt⟩ := absorbAll_written (Scan.start pkt pktInfo) items
      have hkept : (Tlv.encode (strip false items)).length ≤ (Tlv.encode items).length :=
        length_encode_strip_le false items
      -- nothing was written as far up as END
      have hend : ((Scan.start pkt pktInfo).absorbAll items).pkt
          ((Scan.start pkt pktInfo).absorbAll items).optionParserPtr = endTag := by
        rw [hptr, hpkt]
        show store pkt (dhcp pkt + optionsStart) (Tlv.encode (strip false items)) _ = _
        rw [store_of_ge _ (by omega)]
        exact h.bytes_items.2 htail
      obtain ⟨k, rfl⟩ : ∃ k, rounds = k + 1 := ⟨rounds - 1, by omega⟩
      rw [if_neg htail, optionLoop, if_pos (by omega), optionStep_end hend]
      exact optionLoop_end (le_refl (optionsMax pkt)) k
  · obtain ⟨before, after, hsplit, hkeep, hret⟩ := hloop.2 hgoes
    refine ⟨before, after, hsplit, hkeep, ?_⟩
    rw [(absorbAll_written _ before).2] at hret
    exact hret

/-! ## The scan after the options -/

variable (h : IsRequest pkt items tail)
include h

theorem afterOptions_written :
    (afterOptions pkt pktInfo items tail).pkt
        = store pkt (dhcp pkt + optionsStart) (written items tail) ∧
      (afterOptions pkt pktInfo items tail).sp
        = dhcp pkt + optionsStart + (written items tail).length := by
  obtain ⟨hsp, hpkt⟩ := absorbAll_written (Scan.start pkt pktInfo) items
  have hsp : ((Scan.start pkt pktInfo).absorbAll items).sp
      = dhcp pkt + optionsStart + (Tlv.encode (strip false items)).length := hsp
  have hpkt : ((Scan.start pkt pktInfo).absorbAll items).pkt
      = store pkt (dhcp pkt + optionsStart) (Tlv.encode (strip false items)) := hpkt
  unfold afterOptions written
  by_cases htail : tail = []
  · rw [if_pos htail, htail, List.take_nil, List.append_nil]
    exact ⟨hpkt, hsp⟩
  · rw [if_neg htail, h.tail_take htail, List.length_append, List.length_singleton]
    refine ⟨?_, ?_⟩
    · show store _ _ [endTag] = _
      rw [hpkt, hsp, store_store_append]
    · show _ + 1 = _
      rw [hsp]
      push_cast
      ring

/-- Where the lengths are checked. -/
theorem appendPtr_eq : (afterOptions pkt pktInfo items tail).appendPtr
    = dhcp pkt + optionsStart + endOffset items tail := by
  obtain ⟨-, -, -, hpad⟩ := afterOptions_rest pkt pktInfo items tail
  unfold Scan.appendPtr endOffset
  rw [hpad, (h.afterOptions_written pktInfo).2]
  rcases List.eq_nil_or_concat' items with hnil | ⟨before, item, hlast⟩
  · rw [hnil, if_neg (by simp)]
    rfl
  · cases item with
    | pad =>
      have hsp : ((Scan.start pkt pktInfo).absorbAll before).sp
          = dhcp pkt + optionsStart + (Tlv.encode (strip false before)).length :=
        (absorbAll_written _ before).1
      rw [hlast, absorbAll_endPad_pad, Option.getD_some, if_pos List.getLast?_concat, hsp,
        strip_concat_pad, Tlv.encode_append, List.length_append]
      rfl
    | opt o =>
      rw [hlast, absorbAll_endPad_opt, Option.getD_none,
        if_neg (by rw [List.getLast?_concat]; simp)]

/-- The code's room check, without the wrap of its 32-bit lengths. -/
theorem hasRoom_iff (rId : RemoteId) :
    (afterOptions pkt pktInfo items tail).hasRoom (dhcp pkt) rId = true
      ↔ RoomAt (endOffset items tail) items rId := by
  obtain ⟨-, hsize, -, -⟩ := afterOptions_rest pkt pktInfo items tail
  have hlt := h.written_le
  have hle := endOffset_le items tail
  have hlen : dhcpRelayGetOption82Len rId ≤ 16 := by cases rId <;> decide
  have hpacklen : ((dhcp pkt + optionsStart + (endOffset items tail : ℤ) - dhcp pkt) % 2 ^ 32
      + dhcpRelayGetOption82Len rId) % 2 ^ 32
      = (optionsStart + endOffset items tail + dhcpRelayGetOption82Len rId : ℕ) := by
    omega
  unfold Scan.hasRoom RoomAt
  rw [h.appendPtr_eq, hsize]
  simp only [hpacklen, decide_eq_true_eq]
  norm_cast

/-- The byte in front of the write pointer decides where the new option starts. -/
theorem optionPtr_eq (hcookie : slice pkt (dhcp pkt + optionsOff) magicLen = dhcpCookie) :
    (afterOptions pkt pktInfo items tail).optionPtr
      = dhcp pkt + optionsStart + optionOffset items tail := by
  have hle := endOffset_le items tail
  -- the last byte of the cookie is not END
  have hcell := eq_of_slice_eq pkt hcookie (show 3 < magicLen by decide)
  rw [show dhcp pkt + optionsOff + ((3 : ℕ) : ℤ) = dhcp pkt + optionsStart - 1 by
    unfold optionsOff optionsStart; omega] at hcell
  have hlast : pkt (dhcp pkt + optionsStart - 1) ≠ endTag := by
    rw [Option.some.inj hcell]
    decide
  have htake :
      ((written items tail).take (endOffset items tail)).length = endOffset items tail := by
    rw [List.length_take]
    omega
  have hbyte := store_before pkt (dhcp pkt + optionsStart)
    ((written items tail).take (endOffset items tail))
    ((written items tail).drop (endOffset items tail))
  rw [List.take_append_drop, htake] at hbyte
  unfold Scan.optionPtr optionOffset
  rw [h.appendPtr_eq, (h.afterOptions_written pktInfo).1, hbyte]
  cases hend : ((written items tail).take (endOffset items tail)).getLast? with
  | none => rw [Option.getD_none, if_neg hlast, if_neg (by simp)]
  | some b =>
    have hpos : 0 < endOffset items tail := by
      rw [← htake]
      apply List.length_pos_of_ne_nil
      intro hnil
      rw [hnil] at hend
      exact absurd hend (by simp)
    simp only [Option.getD_some, Option.some.injEq]
    split <;> omega

omit h

/-! ## What the function returns -/

variable {c : Option82Call}

/-- Where the loop returns, the items in front have been moved; a request whose option 82 is
kept is as it was. -/
theorem process_of_not_goesOn (h : IsRequest pkt items tail) (hlengths : LengthsKept 0 false items)
    (hworks : Works c pkt) (hgoes : ¬ GoesOn c.cfg.policy (giaddr pkt) false items) :
    ∃ before after, items = before ++ after ∧
      (c.process pkt).pkt
        = store pkt (dhcp pkt + optionsStart) (Tlv.encode (strip false before)) ∧
      ((c.process pkt).result = .dropped ∨
        (c.process pkt).result = .valid ∧ c.cfg.policy = .keep ∧ (c.process pkt).pkt = pkt) := by
  obtain ⟨before, after, hsplit, hkeep, result, s, hscan, hpkt, hresult⟩ :=
    (@scanOptions_eq pkt items tail c.cfg c.host c.ifName c.pktInfo h hlengths).2 hgoes
  have hprocess : c.process pkt = ⟨result, s.pkt, s.pktInfo⟩ := by
    rw [process_of_works hworks, hscan]
  refine ⟨before, after, hsplit, by rw [hprocess, hpkt], ?_⟩
  rw [hprocess]
  rcases hresult with hdropped | ⟨hvalid, hpolicy⟩
  · exact Or.inl hdropped
  · refine Or.inr ⟨hvalid, hpolicy, ?_⟩
    -- nothing was stripped, so the items were written where they are
    have hbytes := h.bytes_items.1
    rw [hsplit, Tlv.encode_append, List.length_append] at hbytes
    show s.pkt = pkt
    rw [hpkt, hkeep hpolicy]
    conv_lhs => rw [← (slice_of_append pkt hbytes).1]
    exact store_slice_self pkt _ _

/-- Without a message type the request goes on unprocessed. -/
theorem process_of_plain (h : IsRequest pkt items tail) (hlengths : LengthsKept 0 false items)
    (hworks : Works c pkt) (hgoes : GoesOn c.cfg.policy (giaddr pkt) false items)
    (hmsg : ¬ ∃ o ∈ Tlv.options items, o.tag = dhcpMsgtype) :
    (c.process pkt).pkt = store pkt (dhcp pkt + optionsStart) (written items tail) := by
  obtain ⟨hdhcp, -⟩ := afterOptions_rest pkt c.pktInfo items tail
  have hfalse : (afterOptions pkt c.pktInfo items tail).isDhcp = false := by
    rw [hdhcp]
    simpa using hmsg
  rw [process_of_works hworks,
    (@scanOptions_eq pkt items tail c.cfg c.host c.ifName c.pktInfo h hlengths).1 hgoes]
  simp only [finishOption82, hfalse]
  exact (h.afterOptions_written c.pktInfo).1

/-- The end of the function on a request with a message type. -/
theorem process_of_goesOn (h : IsRequest pkt items tail) (hlengths : LengthsKept 0 false items)
    (hworks : Works c pkt) (hgoes : GoesOn c.cfg.policy (giaddr pkt) false items)
    (hmsg : ∃ o ∈ Tlv.options items, o.tag = dhcpMsgtype) :
    c.process pkt =
      (let s := afterOptions pkt c.pktInfo items tail
       let w := addAgentOption c.host c.ifIndex c.ifName c.bootpGw c.cfg.rId (dhcp pkt) s
       ⟨.valid, updateLengths (dhcp pkt) w.1 w.2, c.pktInfo⟩) := by
  obtain ⟨hdhcp, -, hinfo, -⟩ := afterOptions_rest pkt c.pktInfo items tail
  have htrue : (afterOptions pkt c.pktInfo items tail).isDhcp = true := by
    rw [hdhcp]
    simpa using hmsg
  have hop : (afterOptions pkt c.pktInfo items tail).pkt (dhcp pkt + opOff) = bootrequest := by
    rw [(h.afterOptions_written c.pktInfo).1, store_of_lt _ (by unfold opOff optionsStart; omega)]
    exact h.op
  have hreply : (afterOptions pkt c.pktInfo items tail).pkt (dhcp pkt + opOff) ≠ bootreply := by
    rw [hop]
    decide
  rw [process_of_works hworks,
    (@scanOptions_eq pkt items tail c.cfg c.host c.ifName c.pktInfo h hlengths).1 hgoes]
  simp only [finishOption82, htrue, not_true_eq_false, if_false, if_neg hreply, if_pos hop, hinfo]

/-- With room, the new option is written. -/
theorem process_of_room (h : IsRequest pkt items tail) (hlengths : LengthsKept 0 false items)
    (hworks : Works c pkt) (hgoes : GoesOn c.cfg.policy (giaddr pkt) false items)
    (hmsg : ∃ o ∈ Tlv.options items, o.tag = dhcpMsgtype)
    (hroom : RoomAt (endOffset items tail) items c.cfg.rId) :
    c.process pkt =
      (let sp := dhcp pkt + optionsStart + optionOffset items tail
       ⟨.valid, updateLengths (dhcp pkt)
          (writeAgentOption c.host c.ifIndex c.ifName c.bootpGw c.cfg.rId c.pktInfo
            (store pkt (dhcp pkt + optionsStart) (written items tail)) sp).1
          (sp + 10 + remoteIdLength c.cfg.rId + 1), c.pktInfo⟩) := by
  have hroom := (h.hasRoom_iff c.pktInfo c.cfg.rId).mpr hroom
  rw [h.process_of_goesOn hlengths hworks hgoes hmsg]
  simp only [addAgentOption, if_pos hroom, h.optionPtr_eq c.pktInfo hworks.cookie,
    (h.afterOptions_written c.pktInfo).1, (afterOptions_rest pkt c.pktInfo items tail).2.2.1]
  rw [writeAgentOption_stores]

/-- Without room, the message ends where the new option would go. -/
theorem process_of_no_room (h : IsRequest pkt items tail) (hlengths : LengthsKept 0 false items)
    (hworks : Works c pkt) (hgoes : GoesOn c.cfg.policy (giaddr pkt) false items)
    (hmsg : ∃ o ∈ Tlv.options items, o.tag = dhcpMsgtype)
    (hroom : ¬ RoomAt (endOffset items tail) items c.cfg.rId) :
    c.process pkt = ⟨.valid, updateLengths (dhcp pkt)
      (store pkt (dhcp pkt + optionsStart) (written items tail))
      (dhcp pkt + optionsStart + endOffset items tail), c.pktInfo⟩ := by
  have hroom := mt (h.hasRoom_iff c.pktInfo c.cfg.rId).mp hroom
  rw [h.process_of_goesOn hlengths hworks hgoes hmsg]
  simp only [addAgentOption, if_neg hroom, h.appendPtr_eq c.pktInfo,
    (h.afterOptions_written c.pktInfo).1]

/-! ## The message of a request -/

/-- With room, the message holds what was written in front of the new option, the new option
and END. -/
theorem holds_of_room (h : IsRequest pkt items tail) (hlengths : LengthsKept 0 false items)
    (hworks : Works c pkt) (hgoes : GoesOn c.cfg.policy (giaddr pkt) false items)
    (hmsg : ∃ o ∈ Tlv.options items, o.tag = dhcpMsgtype)
    (hroom : RoomAt (endOffset items tail) items c.cfg.rId) :
    (c.process pkt).result = .valid ∧
      HoldsOptions pkt (c.process pkt).pkt ((written items tail).take (optionOffset items tail)
        ++ ((c.addedOption pkt items tail).encode ++ [endTag])) := by
  have hrl := remoteIdLength_le c.cfg.rId
  have hcode : dhcpRelayGetOption82Len c.cfg.rId = remoteIdLength c.cfg.rId + 10 := by
    cases c.cfg.rId <;> rfl
  have hsize := hroom.1
  unfold optionsStart recvBufferSize at hsize
  obtain ⟨hle, hfar⟩ := optionOffset_le items tail
  have hwhere := optionOffset_le_endOffset items tail
  have hudph : dhcp pkt = udph pkt + 8 := rfl
  have hpos : 0 ≤ udph pkt := Int.natCast_nonneg _
  have hnew := c.size_newOption pkt (dhcp pkt + optionsStart + optionOffset items tail)
  rw [h.process_of_room hlengths hworks hgoes hmsg hroom]
  refine ⟨rfl, ?_⟩
  generalize hsp : dhcp pkt + optionsStart + optionOffset items tail = sp at hnew
  generalize hpktW : store pkt (dhcp pkt + optionsStart) (written items tail) = pktW
  generalize hk : optionOffset items tail = k at hle hfar hwhere hsp
  have hlen : ((written items tail).take k ++ ((c.newOption pkt sp).encode ++ [endTag])).length
      = k + remoteIdLength c.cfg.rId + 11 := by
    rw [List.length_append, List.length_append, List.length_take, Tlv.Opt.length_encode, hnew,
      List.length_singleton]
    omega
  -- the remote id stands where nothing else was written
  have hstanding : standingRemoteId c.host c.ifName c.bootpGw c.cfg.rId c.pktInfo pktW sp
      = standingRemoteId c.host c.ifName c.bootpGw c.cfg.rId c.pktInfo pkt sp := by
    unfold standingRemoteId
    apply slice_congr
    intro i _
    apply store_congr
    intro _
    rw [← hpktW]
    exact store_of_ge pkt (by omega)
  have hnewBytes := @writeAgentOption_reads c.host c.ifName c.bootpGw c.cfg.rId c.pktInfo
    c.ifIndex pktW sp
  rw [hstanding, ← c.encode_newOption] at hnewBytes
  have hfront {a : ℤ} (ha : a < sp) := @writeAgentOption_front c.host c.ifName c.bootpGw
    c.cfg.rId c.pktInfo c.ifIndex pktW sp a ha
  have hbefore : slice pktW (dhcp pkt + optionsStart) k = (written items tail).take k := by
    rw [← hpktW, ← take_slice _ _ hle, slice_store_self]
  have hend : sp + 10 + remoteIdLength c.cfg.rId + 1
      = dhcp pkt + optionsStart
        + ((written items tail).take k ++ ((c.newOption pkt sp).encode ++ [endTag])).length := by
    rw [hlen]
    push_cast
    omega
  show HoldsOptions pkt (updateLengths (dhcp pkt) _ (sp + 10 + remoteIdLength c.cfg.rId + 1)) _
  unfold Option82Call.addedOption
  rw [hk, hsp, hend]
  apply updateLengths_holds
  · rw [hfront (by unfold optionsStart at hsp; omega), ← hpktW,
      store_of_lt _ (by unfold optionsStart; omega)]
  · rw [hlen, show k + remoteIdLength c.cfg.rId + 11 = k + (remoteIdLength c.cfg.rId + 11) by
      omega, slice_add, hsp, hnewBytes, ← hbefore]
    congr 1
    apply slice_congr
    intro i hi
    exact hfront (by omega)
  · omega
  · rw [hlen]
    unfold optionsStart udphdrLength
    omega

/-- Without room, the message ends where the new option would go. -/
theorem holds_of_no_room (h : IsRequest pkt items tail) (hlengths : LengthsKept 0 false items)
    (hworks : Works c pkt) (hgoes : GoesOn c.cfg.policy (giaddr pkt) false items)
    (hmsg : ∃ o ∈ Tlv.options items, o.tag = dhcpMsgtype)
    (hroom : ¬ RoomAt (endOffset items tail) items c.cfg.rId) :
    (c.process pkt).result = .valid ∧
      HoldsOptions pkt (c.process pkt).pkt ((written items tail).take (endOffset items tail)) := by
  have hle := endOffset_le items tail
  have hfit := h.written_le
  have htwo := two_le_of_messageType hmsg false
  have hpos : 1 ≤ endOffset items tail := by
    unfold endOffset written
    rw [List.length_append]
    split <;> omega
  have hlen : ((written items tail).take (endOffset items tail)).length
      = endOffset items tail := by
    rw [List.length_take]
    omega
  have hudph : dhcp pkt = udph pkt + 8 := rfl
  have hudph0 : 0 ≤ udph pkt := Int.natCast_nonneg _
  rw [h.process_of_no_room hlengths hworks hgoes hmsg hroom]
  refine ⟨rfl, ?_⟩
  show HoldsOptions pkt (updateLengths (dhcp pkt) _ _) _
  conv =>
    arg 2
    rw [← hlen]
  apply updateLengths_holds
  · apply store_of_lt
    unfold optionsStart
    omega
  · rw [hlen, ← take_slice _ _ hle, slice_store_self]
  · rw [hlen]
    exact hpos
  · rw [hlen]
    omega

end IsRequest

/-! ## Requests over a plain IP header -/

/-- A request over a plain IP header with its length, zeros where nothing else is said. -/
def sizedRequest (giaddr options : List UInt8) : Packet :=
  store (requestPacket giaddr options) ipLenOff
    (htonsBytes (20 + udphdrLength + optionsStart + options.length))

/-- A part of a list of bytes, read from memory. -/
theorem slice_of_list (xs ys zs : List UInt8) :
    slice (fun a : ℤ => (xs ++ ys ++ zs)[a.toNat]?.getD 0) xs.length ys.length = ys := by
  apply List.ext_getElem?
  intro i
  by_cases hi : i < ys.length
  · have hat : ((xs.length : ℤ) + (i : ℤ)).toNat = xs.length + i := by omega
    rw [getElem?_slice _ hi, hat, List.append_assoc, List.getElem?_append_right (by omega),
      Nat.add_sub_cancel_left, List.getElem?_append_left hi, List.getElem?_eq_getElem hi,
      Option.getD_some]
  · rw [List.getElem?_eq_none (by rw [length_slice]; omega), List.getElem?_eq_none (by omega)]

section sized

variable {gi options : List UInt8}

theorem dhcp_sizedRequest : dhcp (sizedRequest gi options) = 28 := by
  have hfirst : sizedRequest gi options 0 = 0x45 := store_of_lt _ (by decide) _
  unfold dhcp udph ipHl
  rw [hfirst]
  rfl

/-- The UDP length, the operation, the cookie and the options. -/
theorem sizedRequest_fields (hgi : gi.length = 4)
    (hlen : optionsStart + options.length + udphdrLength < 2 ^ 16) :
    dhcpPktlen (sizedRequest gi options) = optionsStart + options.length ∧
      dhcpOp (sizedRequest gi options) = bootrequest ∧
      slice (sizedRequest gi options) (dhcp (sizedRequest gi options) + optionsOff) magicLen
        = dhcpCookie ∧
      slice (sizedRequest gi options) (dhcp (sizedRequest gi options) + optionsStart)
        options.length = options := by
  have hbehind {a : ℤ} (n : ℕ) (ha : 4 ≤ a) :
      slice (sizedRequest gi options) a n = slice (requestPacket gi options) a n :=
    slice_store_outside _ (Or.inr ha)
  have hudph : udph (sizedRequest gi options) = 20 := by
    have hdhcp := @dhcp_sizedRequest gi options
    unfold dhcp udphdrLength at hdhcp
    omega
  have hpkt : requestPacket gi options = fun a : ℤ =>
      (0x45 :: List.replicate 23 0 ++ (htonsBytes (udphdrLength + optionsStart + options.length)
        ++ ([0, 0] ++ ([bootrequest] ++ (List.replicate 23 0 ++ (gi ++ (List.replicate 208 0
          ++ (dhcpCookie ++ options))))))))[a.toNat]?.getD 0 := by
    funext a
    simp only [requestPacket, List.append_assoc, List.cons_append, List.nil_append]
  rw [dhcpPktlen, hudph, dhcpOp, dhcp_sizedRequest]
  -- each field is where the lengths of the parts in front of it say
  refine ⟨?_, ?_, ?_, ?_⟩
  · have hfield := slice_of_list (0x45 :: List.replicate 23 0)
      (htonsBytes (udphdrLength + optionsStart + options.length))
      ([0, 0] ++ ([bootrequest] ++ (List.replicate 23 0 ++ (gi ++ (List.replicate 208 0
          ++ (dhcpCookie ++ options))))))
    rw [List.append_assoc, ← hpkt] at hfield
    have hulen : slice (requestPacket gi options) (20 + uhUlenOff) 2
        = htonsBytes (udphdrLength + optionsStart + options.length) := hfield
    rw [ntohs, hbehind 2 (by decide), hulen, htonsBytes, beVal_beBytes (by omega)]
    push_cast
    ring
  · have hfield := slice_of_list (0x45 :: List.replicate 23 0
      ++ (htonsBytes (udphdrLength + optionsStart + options.length) ++ [0, 0])) [bootrequest]
      (List.replicate 23 0 ++ (gi ++ (List.replicate 208 0 ++ (dhcpCookie ++ options))))
    simp only [List.append_assoc] at hfield
    rw [← hpkt] at hfield
    have hop : slice (requestPacket gi options) (28 + opOff) 1 = [bootrequest] := by
      have hat : (0x45 :: List.replicate 23 0
        ++ (htonsBytes (udphdrLength + optionsStart + options.length) ++ [0, 0])).length = 28 := rfl
      rw [hat] at hfield
      exact hfield
    rw [← hbehind 1 (by decide), slice_succ] at hop
    exact (List.cons.inj hop).1
  · have hfield := slice_of_list (0x45 :: List.replicate 23 0
      ++ (htonsBytes (udphdrLength + optionsStart + options.length) ++ ([0, 0] ++ ([bootrequest]
        ++ (List.replicate 23 0 ++ (gi ++ List.replicate 208 0)))))) dhcpCookie options
    have hat : (0x45 :: List.replicate 23 0
      ++ (htonsBytes (udphdrLength + optionsStart + options.length) ++ ([0, 0] ++ ([bootrequest]
        ++ (List.replicate 23 0 ++ (gi ++ List.replicate 208 0)))))).length = 264 := by
      simp only [List.length_append, List.length_cons, List.length_replicate, List.length_nil,
        length_htonsBytes, hgi]
    rw [hat] at hfield
    simp only [List.append_assoc] at hfield
    rw [← hpkt] at hfield
    rw [hbehind magicLen (by decide)]
    exact hfield
  · have hfield := slice_of_list (0x45 :: List.replicate 23 0
      ++ (htonsBytes (udphdrLength + optionsStart + options.length) ++ ([0, 0] ++ ([bootrequest]
        ++ (List.replicate 23 0 ++ (gi ++ (List.replicate 208 0 ++ dhcpCookie))))))) options []
    have hat : (0x45 :: List.replicate 23 0
      ++ (htonsBytes (udphdrLength + optionsStart + options.length) ++ ([0, 0] ++ ([bootrequest]
        ++ (List.replicate 23 0 ++ (gi ++ (List.replicate 208 0 ++ dhcpCookie))))))).length
          = 268 := by
      simp only [List.length_append, List.length_cons, List.length_replicate, List.length_nil,
        length_htonsBytes, hgi, dhcpCookie]
    rw [hat] at hfield
    simp only [List.append_assoc, List.append_nil] at hfield
    rw [← hpkt] at hfield
    rw [hbehind options.length (by unfold optionsStart; omega)]
    exact hfield

/-- The IP length agrees with the UDP length. -/
theorem ipLen_sizedRequest (hgi : gi.length = 4)
    (hlen : 20 + udphdrLength + optionsStart + options.length < 2 ^ 16) :
    ntohs (sizedRequest gi options) ipLenOff = 20 + udphdrLength + optionsStart + options.length ∧
      ntohs (sizedRequest gi options) ipLenOff
        = ntohs (sizedRequest gi options) (udph (sizedRequest gi options) + uhUlenOff)
          + ipHl (sizedRequest gi options) * 4 := by
  have hip : ntohs (sizedRequest gi options) ipLenOff
      = 20 + udphdrLength + optionsStart + options.length := ntohs_store_htonsBytes _ _ hlen
  have hulen := (sizedRequest_fields hgi (show optionsStart + options.length + udphdrLength < 2 ^ 16
    by omega)).1
  have hdhcp := @dhcp_sizedRequest gi options
  unfold dhcp udph udphdrLength at hdhcp
  refine ⟨hip, ?_⟩
  rw [hip]
  unfold dhcpPktlen udphdrLength at hulen
  unfold udphdrLength
  omega

end sized

end Udpfwd
end IpApps
