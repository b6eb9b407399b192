import IpApps.Udpfwd.RequestScan

/-!
# Adding the relay agent option to a request

A request whose options are pads and complete options up to END, with room for a new
option 82. Afterwards the server should find the client's options without any option 82,
then the new one, then END. Two things can spoil that: a stripped option 82 lets a move
overwrite the length octet that is read next (`LengthsKept`), and the search for END in
front of the write pointer takes a value byte 255 of an option for it when a single pad
follows the option.
-/

namespace IpApps
namespace Udpfwd

open Memory Endian

/-! ## Stripped options -/

/-- A message type option comes before any relay agent option. -/
def MessageTypeFirst (os : List DhcpOpt) : Prop :=
  ∃ before o after, os = before ++ o :: after ∧ o.tag = dhcpMsgtype ∧
    ∀ o' ∈ before, o'.tag ≠ dhcpAgentOptions

/-- The options without the relay agent options. -/
def withoutAgentOptions (os : List DhcpOpt) : List DhcpOpt :=
  os.filter fun o => o.tag ≠ dhcpAgentOptions

/-- A relay agent option comes only behind a message type. -/
def Typed : Bool → List DhcpItem → Prop
  | _, [] => True
  | isDhcp, .pad :: items => Typed isDhcp items
  | isDhcp, .opt o :: items =>
    (o.tag = dhcpAgentOptions → isDhcp = true) ∧ Typed (isDhcp || o.tag = dhcpMsgtype) items

theorem typed_of_messageType {isDhcp : Bool} {items : List DhcpItem}
    (h : isDhcp = true ∨ MessageTypeFirst (Tlv.options items)) : Typed isDhcp items := by
  induction items generalizing isDhcp with
  | nil => trivial
  | cons item items ih =>
    cases item with
    | pad => exact ih h
    | opt o =>
      cases h with
      | inl hdhcp => exact ⟨fun _ => hdhcp, ih (Or.inl (by rw [hdhcp, Bool.true_or]))⟩
      | inr hfirst =>
        obtain ⟨before, t, after, heq, htype, hbefore⟩ := hfirst
        rw [Tlv.options_opt] at heq
        cases before with
        | nil =>
          have hmsg : o.tag = dhcpMsgtype := (List.cons.inj heq).1 ▸ htype
          refine ⟨?_, ih (Or.inl (by simp [hmsg]))⟩
          intro hagent
          rw [hmsg] at hagent
          exact absurd hagent (by decide)
        | cons o' before =>
          have hstay : o.tag ≠ dhcpAgentOptions := by
            rw [(List.cons.inj heq).1]
            exact hbefore o' List.mem_cons_self
          refine ⟨fun hagent => absurd hagent hstay, ih (Or.inr ?_)⟩
          exact ⟨before, t, after, (List.cons.inj heq).2, htype,
            fun o'' ho'' => hbefore o'' (List.mem_cons_of_mem _ ho'')⟩

/-- The items behind the first one. -/
theorem typed_cons (s : Scan) {item : DhcpItem} {items : List DhcpItem}
    (h : Typed s.isDhcp (item :: items)) : Typed (s.absorb item).isDhcp items := by
  cases item with
  | pad => exact h
  | opt o =>
    obtain ⟨hagent, hrest⟩ := h
    simp only [Scan.absorb]
    split
    · rename_i hstrip
      have hdhcp : s.isDhcp = true := by simp [Strips] at hstrip; exact hstrip.1
      rw [hdhcp, Bool.true_or] at hrest
      simp only [hdhcp]
      exact hrest
    · exact hrest

/-- With the message type first, every relay agent option is stripped. -/
theorem options_strip {isDhcp : Bool} {items : List DhcpItem} (h : Typed isDhcp items) :
    Tlv.options (strip isDhcp items) = withoutAgentOptions (Tlv.options items) := by
  induction items generalizing isDhcp with
  | nil => rfl
  | cons item items ih =>
    cases item with
    | pad => exact ih h
    | opt o =>
      obtain ⟨hagent, hrest⟩ := h
      unfold strip
      by_cases htag : o.tag = dhcpAgentOptions
      · have hdhcp := hagent htag
        rw [hdhcp, Bool.true_or] at hrest
        rw [if_pos (by simp [Strips, hdhcp, htag]), hdhcp, ih hrest, Tlv.options_opt,
          withoutAgentOptions, withoutAgentOptions, List.filter_cons_of_neg (by simp [htag])]
      · rw [if_neg (by simp [Strips, htag]), Tlv.options_opt, ih hrest, Tlv.options_opt,
          withoutAgentOptions, withoutAgentOptions, List.filter_cons_of_pos (by simp [htag])]

/-! ## The request -/

/-- What a remote id can be taken from in either mode: with the MAC address as remote id,
the interface has one of six bytes. -/
def HasRemoteId (host : Host) (ifName : CString) (rId : RemoteId) : Prop :=
  rId = .mac → (host.getMacfromIfname ifName).length = macHeaderLength

/-- How far behind the cookie the write pointer is when the lengths are checked: behind
END, or at the pad that ended the options. -/
def appendOffset (items : List DhcpItem) : ℕ :=
  if items.getLast? = some .pad then (Tlv.encode (strip false items)).length - 1
  else (Tlv.encode (strip false items)).length + 1

/-- The room the code asks for: in the receive buffer, and in the size the client allows. -/
def RoomFor (items : List DhcpItem) (rId : RemoteId) : Prop :=
  let packlen := optionsStart + appendOffset items + dhcpRelayGetOption82Len rId
  packlen < recvBufferSize ∧
    (maxMsgSizeAfter 0 (Tlv.options items) ≠ 0 →
      packlen ≤ maxMsgSizeAfter 0 (Tlv.options items))

/-- A request that gets an option 82 under the policy `replace`: its options are `items`
and END, with anything after END up to the UDP length. -/
structure Insertion where
  cfg : FeatureConfig
  host : Host
  pkt : Packet
  pktInfo : Option82Options
  ifIndex : UInt32
  ifName : CString
  bootpGw : IpAddress
  items : List DhcpItem
  rest : List UInt8
  enabled : cfg.enabled .dhcpRelayOption82 = true
  policy : cfg.policy = .replace
  remoteId : HasRemoteId host ifName cfg.rId
  op : dhcpOp pkt = bootrequest
  cookie : slice pkt (dhcp pkt + optionsOff) magicLen = dhcpCookie
  length : dhcpPktlen pkt = optionsStart + (Tlv.encode items ++ endTag :: rest).length
  bytes : slice pkt (dhcp pkt + optionsStart) (Tlv.encode items ++ endTag :: rest).length
    = Tlv.encode items ++ endTag :: rest
  messageType : MessageTypeFirst (Tlv.options items)
  maxMsgSize : ∀ o ∈ Tlv.options items, o.tag = dhcpMaxmsgsize → o.body.length = 2
  giaddr : (∃ o ∈ Tlv.options items, o.tag = dhcpAgentOptions) → giaddr pkt ≠ 0
  room : RoomFor items cfg.rId

namespace Insertion

variable (i : Insertion)

/-- What the function does with the request. -/
def outcome : Option82Outcome :=
  processDhcpRelayOption82Message i.cfg i.host i.pkt i.pktInfo i.ifIndex i.ifName i.bootpGw

/-- The remote id of the new option. -/
def newRemoteId : List UInt8 :=
  remoteIdBytes i.host i.ifName i.bootpGw i.cfg.rId i.pktInfo

theorem length_newRemoteId : i.newRemoteId.length = remoteIdLength i.cfg.rId :=
  length_remoteIdBytes i.remoteId

/-- The new option: the interface index, big endian, and the remote id. -/
def newOption : DhcpOpt where
  tag := dhcpAgentOptions
  body := agentOptionBody i.ifIndex i.newRemoteId
  tag_ne_pad := dhcpAgentOptions_ne_pad
  tag_ne_stop := dhcpAgentOptions_ne_stop
  length_le := by
    have hlen : remoteIdLength i.cfg.rId ≤ 6 := by cases i.cfg.rId <;> decide
    rw [length_agentOptionBody, length_newRemoteId]
    omega

end Insertion

/-- The options of a message: what can be read from behind the cookie up to its length. -/
def parsedOptions (pkt : Packet) : Option (List DhcpOpt) :=
  (Tlv.parse dhcpFormat (slice pkt (dhcp pkt + optionsStart)
    (dhcpPktlen pkt - optionsStart).toNat)).map Tlv.options

/-- The client's options reach the server: they are all there, in order, without any option
82, and the new option follows. -/
def Insertion.Preserves (i : Insertion) : Prop :=
  i.outcome.result = .valid ∧
    parsedOptions i.outcome.pkt
      = some (withoutAgentOptions (Tlv.options i.items) ++ [i.newOption])

/-- A single pad ends the options, and the byte in front of it among those that stay is
255: it is the last value byte of an option. -/
def EndsInEndByte (items : List DhcpItem) : Prop :=
  ∃ before, items = before ++ [.pad] ∧
    (Tlv.encode (strip false before)).getLast? = some endTag

/-! ## A request that ends with END -/

section ends

variable (items before : List DhcpItem) (rest : List UInt8)

theorem endOffset_end : endOffset items (endTag :: rest) = appendOffset items := by
  unfold endOffset appendOffset written
  rw [List.take_succ_cons, List.take_zero, List.length_append, List.length_singleton]

theorem roomAt_end (rId : RemoteId) :
    RoomAt (endOffset items (endTag :: rest)) items rId ↔ RoomFor items rId := by
  rw [endOffset_end]
  rfl

/-- Behind options that end without a pad, the END in front of the pointer is the one that
was just written. -/
theorem written_take_of_opt {items : List DhcpItem} (hlast : items.getLast? ≠ some .pad) :
    (written items (endTag :: rest)).take (optionOffset items (endTag :: rest))
      = Tlv.encode (strip false items) := by
  have hwritten : written items (endTag :: rest) = Tlv.encode (strip false items) ++ [endTag] := by
    rw [written, List.take_succ_cons, List.take_zero]
  have hoffset : endOffset items (endTag :: rest)
      = (Tlv.encode (strip false items) ++ [endTag]).length := by
    rw [endOffset, if_neg hlast, hwritten]
  unfold optionOffset
  rw [hoffset, hwritten, List.take_length, List.getLast?_concat, if_pos rfl, List.length_append,
    List.length_singleton, Nat.add_sub_cancel, List.take_left]

/-- Behind options that end with a pad, the byte in front of that pad decides. -/
theorem written_take_of_pad :
    (written (before ++ [.pad]) (endTag :: rest)).take
        (optionOffset (before ++ [.pad]) (endTag :: rest))
      = if (Tlv.encode (strip false before)).getLast? = some endTag then
          (Tlv.encode (strip false before)).take ((Tlv.encode (strip false before)).length - 1)
        else Tlv.encode (strip false before) := by
  have hkept : Tlv.encode (strip false (before ++ [.pad]))
      = Tlv.encode (strip false before) ++ [pad] := by
    rw [strip_concat_pad, Tlv.encode_append]
    rfl
  have hwritten : written (before ++ [.pad]) (endTag :: rest)
      = Tlv.encode (strip false before) ++ ([pad] ++ [endTag]) := by
    rw [written, List.take_succ_cons, List.take_zero, hkept, List.append_assoc]
  have hoffset : endOffset (before ++ [.pad]) (endTag :: rest)
      = (Tlv.encode (strip false before)).length := by
    rw [endOffset, if_pos List.getLast?_concat, hkept, List.length_append, List.length_singleton,
      Nat.add_sub_cancel]
  unfold optionOffset
  rw [hoffset, hwritten, List.take_left]
  split
  · rw [List.take_append_of_le_length (Nat.sub_le _ _)]
  · rw [List.take_left]

theorem endsInEndByte_concat_pad : EndsInEndByte (before ++ [.pad])
    ↔ (Tlv.encode (strip false before)).getLast? = some endTag := by
  constructor
  · intro hend
    obtain ⟨before', hitems, hbyte⟩ := hend
    rw [List.append_cancel_right_eq] at hitems
    rw [hitems]
    exact hbyte
  · exact fun hbyte => ⟨before, rfl, hbyte⟩

end ends

/-- The options of a message are those its bytes hold. -/
theorem HoldsOptions.parsedOptions {pkt pkt' : Packet} {options : List UInt8}
    (h : HoldsOptions pkt pkt' options) :
    parsedOptions pkt' = (Tlv.parse dhcpFormat options).map Tlv.options := by
  unfold Udpfwd.parsedOptions
  rw [dhcp_congr h.first, h.length, show ((optionsStart : ℤ) + options.length - optionsStart).toNat
    = options.length by omega, h.bytes]

/-- Bytes that end in END end with an option whose body does. -/
theorem eq_of_getLast?_encode {items : List DhcpItem}
    (h : (Tlv.encode items).getLast? = some endTag) :
    ∃ before o body, items = before ++ [.opt o] ∧ o.body = body ++ [endTag] := by
  rcases List.eq_nil_or_concat' items with rfl | ⟨before, item, rfl⟩
  · cases h
  · cases item with
    | pad =>
      rw [Tlv.encode_append, show Tlv.encode [Tlv.Item.pad] = [dhcpFormat.pad] from rfl,
        List.getLast?_concat] at h
      exact absurd (Option.some.inj h) (by decide)
    | opt o =>
      rw [Tlv.encode_append, Tlv.encode_opt, Tlv.encode_nil, List.append_nil, Tlv.Opt.encode]
        at h
      rcases List.eq_nil_or_concat' o.body with hnil | ⟨body, b, hbody⟩
      · have hlen : o.len = 0 := by rw [Tlv.Opt.len, hnil]; rfl
        rw [hnil, hlen, show [o.tag, 0] = [o.tag] ++ [0] from rfl, ← List.append_assoc,
          List.getLast?_concat] at h
        exact absurd (Option.some.inj h) (by decide)
      · rw [hbody, ← List.cons_append, ← List.cons_append, ← List.append_assoc,
          List.getLast?_concat] at h
        exact ⟨before, o, body, rfl, by rw [hbody, Option.some.inj h]⟩

/-- With an option over the last value byte 255, the option before it is another one, and what
follows is read from the length octet of the new option on. -/
theorem encode_overwritten {before : List DhcpItem} (new : DhcpOpt)
    (htag : new.tag = dhcpAgentOptions) (h : (Tlv.encode before).getLast? = some endTag) :
    ∃ items o o', before = items ++ [.opt o] ∧ o' ≠ o ∧
      (Tlv.encode before).take ((Tlv.encode before).length - 1) ++ (new.encode ++ [endTag])
        = Tlv.encode (items ++ [.opt o']) ++ (new.len :: new.body ++ [endTag]) := by
  obtain ⟨items, o, body, rfl, hbody⟩ := eq_of_getLast?_encode h
  have hlen : body.length + 1 = o.body.length := by
    rw [hbody, List.length_append, List.length_singleton]
  -- the option as the server reads it
  let o' : DhcpOpt :=
    { o with body := body ++ [dhcpAgentOptions]
             length_le := by
               rw [List.length_append, List.length_singleton, hlen]
               exact o.length_le }
  have ho' : o'.encode = o.tag :: o.len :: (body ++ [dhcpAgentOptions]) := by
    rw [Tlv.Opt.encode, Tlv.Opt.len, Tlv.Opt.len]
    simp only [o', List.length_append, List.length_singleton, hlen]
  have henc : Tlv.encode (items ++ [.opt o])
      = Tlv.encode items ++ o.tag :: o.len :: body ++ [endTag] := by
    rw [Tlv.encode_append, Tlv.encode_opt, Tlv.encode_nil, List.append_nil, Tlv.Opt.encode, hbody]
    simp
  refine ⟨items, o, o', rfl, ?_, ?_⟩
  · intro heq
    have hlast : body ++ [dhcpAgentOptions] = o.body := congrArg Tlv.Opt.body heq
    rw [hbody, List.append_cancel_left_eq] at hlast
    exact absurd (List.cons.inj hlast).1 (by decide)
  · rw [henc, ← List.dropLast_eq_take, List.dropLast_concat, Tlv.encode_append, Tlv.encode_opt,
      Tlv.encode_nil, List.append_nil, ho']
    simp [Tlv.Opt.encode, htag]

/-- A message of items and one more option in front of END is read as these options. -/
theorem parsed_eq (items : List DhcpItem) (new : DhcpOpt) :
    (Tlv.parse dhcpFormat (Tlv.encode items ++ (new.encode ++ [endTag]))).map Tlv.options
      = some (Tlv.options items ++ [new]) := by
  have henc : Tlv.encode items ++ (new.encode ++ [endTag])
      = Tlv.encode (items ++ [.opt new]) ++ dhcpFormat.stop :: [] := by
    rw [Tlv.encode_append, Tlv.encode_opt, Tlv.encode_nil, List.append_nil, List.append_assoc]
    rfl
  rw [henc, Tlv.parse_encode, Option.map_some, Tlv.options_append, Tlv.options_opt,
    Tlv.options_nil]

/-- With the new option over the last value byte, the option before it is another one. -/
theorem parsed_ne {before : List DhcpItem} (new : DhcpOpt) (htag : new.tag = dhcpAgentOptions)
    (h : (Tlv.encode before).getLast? = some endTag) :
    (Tlv.parse dhcpFormat ((Tlv.encode before).take ((Tlv.encode before).length - 1)
        ++ (new.encode ++ [endTag]))).map Tlv.options
      ≠ some (Tlv.options before ++ [new]) := by
  obtain ⟨items, o, o', rfl, hne, hbytes⟩ := encode_overwritten new htag h
  rw [hbytes, Tlv.parse_encode_append]
  intro hparse
  cases hrest : Tlv.parse dhcpFormat (new.len :: new.body ++ [endTag]) with
  | none =>
    rw [hrest] at hparse
    cases hparse
  | some rest =>
    rw [hrest] at hparse
    simp only [Option.map_some, Option.some.injEq, Tlv.options_append, Tlv.options_opt,
      Tlv.options_nil, List.append_assoc, List.append_cancel_left_eq, List.singleton_append,
      List.cons.injEq] at hparse
    exact hne hparse.1

/-! ## What the function does with the request -/

namespace Insertion

variable (i : Insertion)

/-- How the function is called. -/
def call : Option82Call := ⟨i.cfg, i.host, i.pktInfo, i.ifIndex, i.ifName, i.bootpGw⟩

theorem isRequest : IsRequest i.pkt i.items (endTag :: i.rest) where
  op := i.op
  length := i.length
  bytes := i.bytes
  ends := fun _ hb => (Option.some.inj hb).symm

theorem goesOn : GoesOn i.cfg.policy (Udpfwd.giaddr i.pkt) false i.items where
  size := i.maxMsgSize
  agent := by
    intro hne
    refine ⟨i.giaddr ?_, i.policy⟩
    by_contra hnone
    apply hne
    apply strip_of_no_agent
    intro o ho htag
    exact hnone ⟨o, ho, htag⟩

/-- What the server gets: what stays in front of the new option, the new option and END. -/
theorem outcome_eq (hlengths : LengthsKept 0 false i.items) :
    i.outcome.result = .valid ∧ parsedOptions i.outcome.pkt
      = (Tlv.parse dhcpFormat ((written i.items (endTag :: i.rest)).take
          (optionOffset i.items (endTag :: i.rest)) ++ (i.newOption.encode ++ [endTag]))).map
          Tlv.options := by
  obtain ⟨before, o, after, heq, htype, -⟩ := i.messageType
  have hmsg : ∃ o ∈ Tlv.options i.items, o.tag = dhcpMsgtype := ⟨o, by rw [heq]; simp, htype⟩
  have hroom := (roomAt_end i.items i.rest i.call.cfg.rId).mpr i.room
  obtain ⟨hresult, hholds⟩ := i.isRequest.holds_of_room hlengths (c := i.call)
    ⟨i.enabled, i.cookie⟩ i.goesOn hmsg hroom
  have hnew : i.call.addedOption i.pkt i.items (endTag :: i.rest) = i.newOption := by
    -- a remote id of the right length stands as it was written
    have hstanding (pkt : Packet) (sp : ℤ) :
        standingRemoteId i.host i.ifName i.bootpGw i.cfg.rId i.pktInfo pkt sp = i.newRemoteId := by
      unfold standingRemoteId
      rw [← i.length_newRemoteId]
      exact slice_store_self _ _ _
    unfold Option82Call.addedOption Option82Call.newOption newOption
    congr 1
    exact congrArg (agentOptionBody i.ifIndex) (hstanding _ _)
  rw [hnew] at hholds
  exact ⟨hresult, hholds.parsedOptions⟩

end Insertion

/-! ## The client's options reach the server -/

/-- If the moves keep the length octets, the message reaches the server with the client's
options in order, without option 82, and with the new option, exactly when no single pad
follows an option that ends in the byte 255. -/
theorem insertion_preserves_iff (i : Insertion) (hlengths : LengthsKept 0 false i.items) :
    i.Preserves ↔ ¬ EndsInEndByte i.items := by
  have hoptions : Tlv.options (strip false i.items) = withoutAgentOptions (Tlv.options i.items) :=
    options_strip (typed_of_messageType (Or.inr i.messageType))
  obtain ⟨hresult, hparsed⟩ := i.outcome_eq hlengths
  unfold Insertion.Preserves
  rw [← hoptions, hparsed]
  by_cases hlast : i.items.getLast? = some .pad
  · obtain ⟨before, hitems⟩ : ∃ before, i.items = before ++ [.pad] :=
      ⟨i.items.dropLast, (List.dropLast_append_getLast? _ hlast).symm⟩
    have hsame : Tlv.options (strip false (before ++ [.pad]))
        = Tlv.options (strip false before) := by
      rw [strip_concat_pad, Tlv.options_append]
      exact List.append_nil _
    rw [hitems, endsInEndByte_concat_pad, written_take_of_pad, hsame]
    split
    · -- the new option starts one byte too early
      rename_i hbyte
      exact iff_of_false (fun h => parsed_ne i.newOption rfl hbyte h.2) (not_not.mpr hbyte)
    · rename_i hbyte
      rw [parsed_eq]
      exact iff_of_true ⟨hresult, rfl⟩ hbyte
  · have hends : ¬ EndsInEndByte i.items := by
      intro hend
      obtain ⟨before, hitems, -⟩ := hend
      exact hlast (by rw [hitems, List.getLast?_concat])
    rw [written_take_of_opt i.rest hlast, parsed_eq]
    exact iff_of_true ⟨hresult, rfl⟩ hends

/-- A host without interfaces. -/
def emptyHost : Host where
  getifaddrs := some []
  ifNameindex := some []
  ifIndextoname := fun _ => none
  sendmsg := fun _ => true
  unsetMac := Vector.replicate 6 0

/-- A DHCPDISCOVER message type. -/
def discoverOption : DhcpOpt where
  tag := dhcpMsgtype
  body := [1]
  tag_ne_pad := dhcpMsgtype_ne_pad
  tag_ne_stop := dhcpMsgtype_ne_stop
  length_le := by decide

/-- The client asks for 10.0.0.255. -/
def requestedAddressOption : DhcpOpt where
  tag := 50
  body := [10, 0, 0, 255]
  tag_ne_pad := by decide
  tag_ne_stop := by decide
  length_le := by decide

/-- A requested address of 10.0.0.255 as the last option, one pad, END. -/
def paddedInsertion : Insertion where
  cfg := ⟨0x000a, .replace, .ip⟩
  host := emptyHost
  pkt := requestPacket [0, 0, 0, 0] [53, 1, 1, 50, 4, 10, 0, 0, 255, 0, 255]
  pktInfo := ⟨0, 0x0100000a⟩
  ifIndex := 3
  ifName := ['1']
  bootpGw := 0
  items := [.opt discoverOption, .opt requestedAddressOption, .pad]
  rest := []
  enabled := rfl
  policy := rfl
  remoteId := fun h => nomatch h
  op := by decide +kernel
  cookie := by decide +kernel
  length := by decide +kernel
  bytes := by decide +kernel
  messageType := ⟨[], discoverOption, [requestedAddressOption], rfl, rfl, fun _ h => nomatch h⟩
  maxMsgSize := by decide
  giaddr := by decide
  room := by unfold RoomFor; decide

theorem insertion_preserves_iff_padded : ¬ paddedInsertion.Preserves := fun h =>
  (insertion_preserves_iff paddedInsertion (lengthsKept_of_no_agent (by decide) false)).mp h
    ⟨[.opt discoverOption, .opt requestedAddressOption], rfl, rfl⟩

/-- The option another relay agent left in the request: an empty circuit id. -/
def otherAgentOption : DhcpOpt where
  tag := dhcpAgentOptions
  body := [1, 0]
  tag_ne_pad := dhcpAgentOptions_ne_pad
  tag_ne_stop := dhcpAgentOptions_ne_stop
  length_le := by decide

/-- A client identifier with an Ethernet address. -/
def clientIdOption : DhcpOpt where
  tag := 61
  body := [1, 0, 0x1b, 0x2c, 0x3d, 0x4e, 0x5f]
  tag_ne_pad := by decide
  tag_ne_stop := by decide
  length_le := by decide

/-- A client identifier behind another agent's option 82 of four bytes. -/
def overlappedInsertion : Insertion where
  cfg := ⟨0x000a, .replace, .ip⟩
  host := emptyHost
  pkt := requestPacket [10, 0, 0, 9]
    [53, 1, 1, 82, 2, 1, 0, 61, 7, 1, 0, 0x1b, 0x2c, 0x3d, 0x4e, 0x5f, 255]
  pktInfo := ⟨0, 0x0100000a⟩
  ifIndex := 3
  ifName := ['1']
  bootpGw := 0
  items := [.opt discoverOption, .opt otherAgentOption, .opt clientIdOption]
  rest := []
  enabled := rfl
  policy := rfl
  remoteId := fun h => nomatch h
  op := by decide +kernel
  cookie := by decide +kernel
  length := by decide +kernel
  bytes := by decide +kernel
  messageType := ⟨[], discoverOption, [otherAgentOption, clientIdOption], rfl, rfl,
    fun _ h => nomatch h⟩
  maxMsgSize := by decide
  giaddr := by decide +kernel
  room := by unfold RoomFor; decide

/-- The fourth byte of the identifier is taken for its length: the message the server gets
does not hold the new option behind the client's. -/
theorem insertion_misreads_length : ¬ ∀ i : Insertion, i.Preserves := by
  intro h
  have hparsed := (h overlappedInsertion).2
  revert hparsed
  decide +kernel

end Udpfwd
end IpApps
