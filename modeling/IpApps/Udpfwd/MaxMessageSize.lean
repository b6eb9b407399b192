import IpApps.Udpfwd.Option82Insert

/-!
# The maximum message size of a client

A request whose client names the largest message it takes. The size check is made before the
function knows whether the END byte is overwritten or the new option starts at a pad, and the
write pointer has gone back to that pad when the check fails.
-/

namespace IpApps
namespace Udpfwd

open Memory Endian

/-- A message whose options are `items` up to END, with a message type in front of any relay
agent option, and whose UDP and IP lengths agree. -/
structure WellFormed (pkt : Packet) (items : List DhcpItem) (rest : List UInt8) : Prop where
  length : dhcpPktlen pkt = optionsStart + (Tlv.encode items ++ endTag :: rest).length
  bytes : slice pkt (dhcp pkt + optionsStart) (Tlv.encode items ++ endTag :: rest).length
    = Tlv.encode items ++ endTag :: rest
  messageType : MessageTypeFirst (Tlv.options items)
  ipLen : ntohs pkt ipLenOff = ntohs pkt (udph pkt + uhUlenOff) + ipHl pkt * 4

/-- The function comes to where it adds its option to the request. -/
def Adds (c : Option82Call) (pkt : Packet) : Prop :=
  ∃ s, scanOptions c.cfg c.host c.ifName pkt c.pktInfo = .next s ∧ s.isDhcp = true ∧
    s.pkt (dhcp pkt + opOff) = bootrequest ∧ s.hasRoom (dhcp pkt) c.cfg.rId = true

/-- The client names this maximum message size. -/
def AllowsSize (items : List DhcpItem) (size : ℕ) : Prop :=
  ∃ o ∈ Tlv.options items, o.tag = dhcpMaxmsgsize ∧ beVal o.body = size ∧
    maxDhcpMessageSize ≤ size

/-- A request that goes on to the server is not longer than the client takes, if the relay adds
its option, and otherwise still holds the client's options and END. -/
def HonoursSize (c : Option82Call) (pkt : Packet) (items : List DhcpItem) : Prop :=
  (c.process pkt).result = .valid →
    (Adds c pkt → ∀ size, AllowsSize items size → dhcpPktlen (c.process pkt).pkt ≤ size) ∧
    (¬ Adds c pkt → parsedOptions (c.process pkt).pkt
      = some (withoutAgentOptions (Tlv.options items)))

/-- The size holds the message the check reckons with, and one byte more where the new option
does not start over a byte 255. -/
def FitsSize (items : List DhcpItem) (rId : RemoteId) (size : ℕ) : Prop :=
  let packlen := optionsStart + appendOffset items + dhcpRelayGetOption82Len rId
  packlen ≤ size ∧
    (items.getLast? = some .pad → ¬ EndsInEndByte items → packlen < size)

/-! ## A request with END -/

namespace WellFormed

variable {pkt : Packet} {items : List DhcpItem} {rest : List UInt8} {c : Option82Call}

theorem hasMessageType (h : WellFormed pkt items rest) :
    ∃ o ∈ Tlv.options items, o.tag = dhcpMsgtype := by
  obtain ⟨before, o, after, heq, htype, -⟩ := h.messageType
  refine ⟨o, ?_, htype⟩
  rw [heq]
  simp

theorem isRequest (h : WellFormed pkt items rest) (hop : dhcpOp pkt = bootrequest) :
    IsRequest pkt items (endTag :: rest) where
  op := hop
  length := h.length
  bytes := h.bytes
  ends := fun _ hb => (Option.some.inj hb).symm

theorem options_strip (h : WellFormed pkt items rest) :
    Tlv.options (strip false items) = withoutAgentOptions (Tlv.options items) :=
  Udpfwd.options_strip (typed_of_messageType (Or.inr h.messageType))

/-- The option is added exactly if there is room. -/
theorem adds_iff (h : WellFormed pkt items rest) (hop : dhcpOp pkt = bootrequest)
    (hlengths : LengthsKept 0 false items) (hgoes : GoesOn c.cfg.policy (giaddr pkt) false items) :
    Adds c pkt ↔ RoomFor items c.cfg.rId := by
  have hreq := h.isRequest hop
  -- the scan ends behind the last item, with the room that is left there
  have hscan := (@IsRequest.scanOptions_eq pkt items (endTag :: rest) c.cfg c.host c.ifName
    c.pktInfo hreq hlengths).1 hgoes
  have hroom := hreq.hasRoom_iff c.pktInfo c.cfg.rId
  rw [roomAt_end] at hroom
  constructor
  · intro hadds
    obtain ⟨s, hs, -, -, hcheck⟩ := hadds
    rw [hscan] at hs
    rw [← ScanStep.next.inj hs] at hcheck
    exact hroom.mp hcheck
  · intro hfree
    obtain ⟨hdhcp, -, -, -⟩ := afterOptions_rest pkt c.pktInfo items (endTag :: rest)
    refine ⟨_, hscan, ?_, ?_, hroom.mpr hfree⟩
    · rw [hdhcp]
      simpa using h.hasMessageType
    · rw [(hreq.afterOptions_written c.pktInfo).1,
        store_of_lt _ (by unfold opOff optionsStart; omega)]
      exact hop

end WellFormed

/-- Where the new option starts: one byte in front of the place the check reckons with, if the
byte there is 255. -/
theorem optionOffset_end (items : List DhcpItem) (rest : List UInt8) :
    (items.getLast? = some .pad → ¬ EndsInEndByte items →
      optionOffset items (endTag :: rest) = appendOffset items) ∧
    (items.getLast? ≠ some .pad ∨ EndsInEndByte items →
      optionOffset items (endTag :: rest) + 1 = appendOffset items) := by
  have hle := (optionOffset_le items (endTag :: rest)).1
  have htake : ((written items (endTag :: rest)).take
      (optionOffset items (endTag :: rest))).length = optionOffset items (endTag :: rest) := by
    rw [List.length_take]
    omega
  -- where a pad is the last item, the new option is stored over it
  by_cases hlast : items.getLast? = some .pad
  · obtain ⟨before, hitems⟩ : ∃ before, items = before ++ [.pad] :=
      ⟨items.dropLast, (List.dropLast_append_getLast? _ hlast).symm⟩
    have hkept : (Tlv.encode (strip false items)).length
        = (Tlv.encode (strip false before)).length + 1 := by
      rw [hitems, strip_concat_pad, Tlv.encode_append, List.length_append]
      rfl
    have happend : appendOffset items = (Tlv.encode (strip false before)).length := by
      rw [appendOffset, if_pos hlast, hkept, Nat.add_sub_cancel]
    rw [← htake, happend]
    rw [hitems, written_take_of_pad, endsInEndByte_concat_pad]
    refine ⟨fun _ hbyte => by rw [if_neg hbyte], fun hor => ?_⟩
    have hbyte := hor.resolve_left (not_not_intro List.getLast?_concat)
    have hne : 0 < (Tlv.encode (strip false before)).length := by
      apply List.length_pos_of_ne_nil
      intro hnil
      rw [hnil] at hbyte
      cases hbyte
    rw [if_pos hbyte, List.length_take]
    omega
  · rw [← htake, written_take_of_opt rest hlast, appendOffset, if_neg hlast]
    exact ⟨fun hpad => absurd hpad hlast, fun _ => rfl⟩

/-- Where the message ends without a new option: behind END, or at the pad in front of it. -/
theorem written_take_endOffset (items : List DhcpItem) (rest : List UInt8) :
    (items.getLast? ≠ some .pad →
      (written items (endTag :: rest)).take (endOffset items (endTag :: rest))
        = Tlv.encode (strip false items) ++ [endTag]) ∧
    (items.getLast? = some .pad → ∃ before, items = before ++ [.pad] ∧
      (written items (endTag :: rest)).take (endOffset items (endTag :: rest))
        = Tlv.encode (strip false before)) := by
  have hwritten : written items (endTag :: rest) = Tlv.encode (strip false items) ++ [endTag] := by
    rw [written, List.take_succ_cons, List.take_zero]
  refine ⟨fun hlast => ?_, fun hlast => ?_⟩
  · rw [endOffset, if_neg hlast, List.take_length, hwritten]
  · obtain ⟨before, hitems⟩ : ∃ before, items = before ++ [.pad] :=
      ⟨items.dropLast, (List.dropLast_append_getLast? _ hlast).symm⟩
    have hkept : Tlv.encode (strip false items) = Tlv.encode (strip false before) ++ [pad] := by
      rw [hitems, strip_concat_pad, Tlv.encode_append]
      rfl
    refine ⟨before, hitems, ?_⟩
    rw [endOffset, if_pos hlast, hwritten, hkept, List.length_append, List.length_singleton,
      Nat.add_sub_cancel, List.append_assoc, List.take_left]

/-! ## Honouring the size -/

section honours

variable {c : Option82Call} {pkt : Packet} {items : List DhcpItem} {rest : List UInt8}

/-- The length of the message with the new option, against a size. -/
theorem length_le_iff (h : WellFormed pkt items rest) (hop : dhcpOp pkt = bootrequest)
    (hworks : Works c pkt) (hlengths : LengthsKept 0 false items)
    (hgoes : GoesOn c.cfg.policy (giaddr pkt) false items) (hroom : RoomFor items c.cfg.rId)
    (size : ℕ) : dhcpPktlen (c.process pkt).pkt ≤ size ↔ FitsSize items c.cfg.rId size := by
  have hroom' := (roomAt_end items rest c.cfg.rId).mpr hroom
  obtain ⟨-, hholds⟩ := (h.isRequest hop).holds_of_room hlengths hworks hgoes h.hasMessageType
    hroom'
  -- the code reserves the two headers and the circuit id with the remote id
  have hcode : dhcpRelayGetOption82Len c.cfg.rId = remoteIdLength c.cfg.rId + 10 := by
    cases c.cfg.rId <;> rfl
  have hle := (optionOffset_le items (endTag :: rest)).1
  have hnew := c.size_newOption pkt
    (dhcp pkt + optionsStart + optionOffset items (endTag :: rest))
  obtain ⟨hpad, hover⟩ := optionOffset_end items rest
  rw [hholds.length, List.length_append, List.length_append, List.length_take,
    Tlv.Opt.length_encode, Option82Call.addedOption, hnew, List.length_singleton, min_eq_left hle]
  unfold FitsSize
  rw [hcode]
  by_cases hcase : items.getLast? = some .pad ∧ ¬ EndsInEndByte items
  · -- the END byte is not overwritten
    have hoffset := hpad hcase.1 hcase.2
    constructor
    · intro hfits
      exact ⟨by omega, fun _ _ => by omega⟩
    · intro hfits
      have hless := hfits.2 hcase.1 hcase.2
      omega
  · have hoffset := hover (by
      by_cases hlast : items.getLast? = some .pad
      · exact Or.inr (not_not.mp fun hends => hcase ⟨hlast, hends⟩)
      · exact Or.inl hlast)
    constructor
    · intro hfits
      exact ⟨by omega, fun hlast hends => absurd ⟨hlast, hends⟩ hcase⟩
    · intro hfits
      have hle' := hfits.1
      omega

/-- Without the new option, the client's options are there exactly if they do not end with a
pad: END is cut off with it. -/
theorem parsed_iff_of_no_room (h : WellFormed pkt items rest) (hop : dhcpOp pkt = bootrequest)
    (hworks : Works c pkt) (hlengths : LengthsKept 0 false items)
    (hgoes : GoesOn c.cfg.policy (giaddr pkt) false items) (hroom : ¬ RoomFor items c.cfg.rId) :
    (c.process pkt).result = .valid ∧
      (parsedOptions (c.process pkt).pkt = some (withoutAgentOptions (Tlv.options items))
        ↔ items.getLast? ≠ some .pad) := by
  have hroom' := (not_congr (roomAt_end items rest c.cfg.rId)).mpr hroom
  obtain ⟨hvalid, hholds⟩ := (h.isRequest hop).holds_of_no_room hlengths hworks hgoes
    h.hasMessageType hroom'
  obtain ⟨hend, hpad⟩ := written_take_endOffset items rest
  refine ⟨hvalid, ?_⟩
  rw [hholds.parsedOptions]
  by_cases hlast : items.getLast? = some .pad
  · obtain ⟨before, -, htake⟩ := hpad hlast
    rw [htake, Tlv.parse_encode_eq_none]
    exact iff_of_false nofun (not_not_intro hlast)
  · have hparse : Tlv.parse dhcpFormat (Tlv.encode (strip false items) ++ [endTag])
        = some (strip false items) := Tlv.parse_encode (strip false items) []
    rw [hend hlast, hparse, Option.map_some, h.options_strip]
    exact iff_of_true rfl hlast

/-- If the moves keep the length octets, the size a client names is honoured, and its options
are still there when nothing is added, exactly if the new option fits the size with the byte
that is not overwritten, and no pad ends the options of a message without room. -/
theorem honoursSize_iff (h : WellFormed pkt items rest) (hop : dhcpOp pkt = bootrequest)
    (hworks : Works c pkt) (hpolicy : c.cfg.policy = .replace)
    (hlengths : LengthsKept 0 false items) :
    HonoursSize c pkt items ↔ (GoesOn .replace (giaddr pkt) false items →
      (RoomFor items c.cfg.rId → ∀ size, AllowsSize items size → FitsSize items c.cfg.rId size) ∧
        (¬ RoomFor items c.cfg.rId → items.getLast? ≠ some .pad)) := by
  unfold HonoursSize
  by_cases hgoes : GoesOn c.cfg.policy (giaddr pkt) false items
  · rw [h.adds_iff hop hlengths hgoes, ← hpolicy]
    by_cases hroom : RoomFor items c.cfg.rId
    · have hroom' := (roomAt_end items rest c.cfg.rId).mpr hroom
      obtain ⟨hvalid, -⟩ := (h.isRequest hop).holds_of_room hlengths hworks hgoes
        h.hasMessageType hroom'
      have hfits := length_le_iff h hop hworks hlengths hgoes hroom
      constructor
      · intro hhonours _
        refine ⟨fun _ size hsize => ?_, fun hfull => absurd hroom hfull⟩
        exact (hfits size).mp ((hhonours hvalid).1 hroom size hsize)
      · intro hcond _
        refine ⟨fun _ size hsize => ?_, fun hfull => absurd hroom hfull⟩
        exact (hfits size).mpr ((hcond hgoes).1 hroom size hsize)
    · -- nothing is added, and the options are read back unless a pad ends them
      obtain ⟨hvalid, hparsed⟩ := parsed_iff_of_no_room h hop hworks hlengths hgoes hroom
      rw [hparsed]
      constructor
      · intro hhonours _
        exact ⟨fun hfree => absurd hfree hroom, (hhonours hvalid).2⟩
      · intro hcond _
        exact ⟨fun hfree => absurd hfree hroom, (hcond hgoes).2⟩
  · -- the request is dropped
    have hnot : (c.process pkt).result ≠ .valid := by
      intro hvalid
      obtain ⟨-, -, -, -, hresult⟩ :=
        (h.isRequest hop).process_of_not_goesOn hlengths hworks hgoes
      rcases hresult with hdropped | ⟨-, hkeep, -⟩
      · rw [hvalid] at hdropped
        exact absurd hdropped (by decide)
      · rw [hpolicy] at hkeep
        exact absurd hkeep (by decide)
    rw [← hpolicy]
    exact iff_of_true (fun hvalid => absurd hvalid hnot) fun hgo => absurd hgo hgoes

end honours

/-! ## A request at the limit -/

/-- A request over a plain IP header is well formed. -/
theorem wellFormed_sizedRequest {gi : List UInt8} {items : List DhcpItem} {rest : List UInt8}
    (hgi : gi.length = 4) (hmsg : MessageTypeFirst (Tlv.options items))
    (hlen : 20 + udphdrLength + optionsStart + (Tlv.encode items ++ endTag :: rest).length
      < 2 ^ 16) :
    WellFormed (sizedRequest gi (Tlv.encode items ++ endTag :: rest)) items rest := by
  obtain ⟨hulen, -, -, hoptions⟩ := sizedRequest_fields hgi
    (show optionsStart + (Tlv.encode items ++ endTag :: rest).length + udphdrLength < 2 ^ 16 by
      omega)
  exact ⟨hulen, hoptions, hmsg, (ipLen_sizedRequest hgi hlen).2⟩

/-- The client takes messages of 576 bytes. -/
def smallestSizeOption : DhcpOpt where
  tag := dhcpMaxmsgsize
  body := [2, 64]
  tag_ne_pad := by decide
  tag_ne_stop := by decide
  length_le := by decide

/-- An option of `n` zeros. -/
def zerosOption (n : ℕ) (h : n ≤ 255) : DhcpOpt where
  tag := 43
  body := List.replicate n 0
  tag_ne_pad := by decide
  tag_ne_stop := by decide
  length_le := by
    rw [List.length_replicate]
    exact h

/-- With an option 82 of 14 bytes in place of the pad, the message has 576 bytes. -/
def limitItems : List DhcpItem :=
  [.opt discoverOption, .opt smallestSizeOption, .opt (zerosOption 255 (by decide)),
    .opt (zerosOption 56 (by decide)), .pad]

/-- Interface 3 with the address 10.0.0.1, the policy `replace`. -/
def replaceCall : Option82Call :=
  ⟨⟨0x000a, .replace, .ip⟩, emptyHost, ⟨0, 0x0100000a⟩, 3, ['1'], 0⟩

def limitRequest : Packet := sizedRequest [0, 0, 0, 0] (Tlv.encode limitItems ++ [endTag])

theorem limitRequest_wellFormed : WellFormed limitRequest limitItems [] := by
  apply wellFormed_sizedRequest rfl
  · exact ⟨[], discoverOption, _, rfl, rfl, fun _ h => absurd h List.not_mem_nil⟩
  · decide +kernel

theorem limitRequest_works :
    dhcpOp limitRequest = bootrequest ∧ Works replaceCall limitRequest := by
  obtain ⟨-, hop, hcookie, -⟩ := @sizedRequest_fields [0, 0, 0, 0] _ rfl
    (show optionsStart + (Tlv.encode limitItems ++ [endTag]).length + udphdrLength < 2 ^ 16 by
      decide +kernel)
  exact ⟨hop, rfl, hcookie⟩

theorem limitItems_noAgent : ∀ o ∈ Tlv.options limitItems, o.tag ≠ dhcpAgentOptions := by
  decide +kernel

theorem limitItems_ends : ¬ EndsInEndByte limitItems := by
  refine (not_congr (endsInEndByte_concat_pad _)).mpr (?_ : ¬ (Tlv.encode (strip false
    [.opt discoverOption, .opt smallestSizeOption, .opt (zerosOption 255 (by decide)),
      .opt (zerosOption 56 (by decide))])).getLast? = some endTag)
  decide +kernel

theorem limitItems_fits : RoomFor limitItems .ip ∧ ¬ FitsSize limitItems .ip 576 := by
  have hroom : RoomFor limitItems .ip := by
    unfold RoomFor
    decide +kernel
  have hlen : optionsStart + appendOffset limitItems + dhcpRelayGetOption82Len .ip = 576 := by
    decide +kernel
  refine ⟨hroom, fun hfits => ?_⟩
  have hless := hfits.2 rfl limitItems_ends
  rw [hlen] at hless
  exact absurd hless (lt_irrefl 576)

theorem limitItems_goesOn (giaddr : IpAddress) : GoesOn .replace giaddr false limitItems where
  size := by decide +kernel
  agent := fun hne => absurd (strip_of_no_agent limitItems_noAgent false) hne

theorem limitItems_allows : AllowsSize limitItems 576 :=
  ⟨smallestSizeOption, by simp [limitItems], rfl, by decide +kernel, le_refl 576⟩

theorem honoursSize_iff_limitRequest : ¬ HonoursSize replaceCall limitRequest limitItems := by
  intro hhonours
  have hcond := (honoursSize_iff limitRequest_wellFormed limitRequest_works.1 limitRequest_works.2
    rfl (lengthsKept_of_no_agent limitItems_noAgent false)).mp hhonours (limitItems_goesOn _)
  exact limitItems_fits.2 (hcond.1 limitItems_fits.1 576 limitItems_allows)

/-- The client takes 576 bytes and gets 577: the pad is overwritten, the END is not. -/
theorem limitRequest_exceeds_size :
    ¬ ∀ (c : Option82Call) (pkt : Packet) (items : List DhcpItem) (rest : List UInt8),
      WellFormed pkt items rest → dhcpOp pkt = bootrequest → Works c pkt →
      c.cfg.policy = .replace → (∃ size, AllowsSize items size) → HonoursSize c pkt items := by
  intro h
  have hhonours := h replaceCall limitRequest limitItems [] limitRequest_wellFormed
    limitRequest_works.1 limitRequest_works.2 rfl ⟨576, limitItems_allows⟩
  have hlengths := lengthsKept_of_no_agent limitItems_noAgent false
  have hroom := limitItems_fits.1
  have hadds := (limitRequest_wellFormed.adds_iff limitRequest_works.1 hlengths (c := replaceCall)
    (limitItems_goesOn _)).mpr hroom
  have hvalid := ((limitRequest_wellFormed.isRequest limitRequest_works.1).holds_of_room hlengths
    limitRequest_works.2 (limitItems_goesOn _) limitRequest_wellFormed.hasMessageType
    ((roomAt_end _ _ _).mpr hroom)).1
  have hle := (hhonours hvalid).1 hadds 576 limitItems_allows
  exact limitItems_fits.2 ((length_le_iff limitRequest_wellFormed limitRequest_works.1
    limitRequest_works.2 hlengths (limitItems_goesOn _) hroom 576).mp hle)

end Udpfwd
end IpApps
