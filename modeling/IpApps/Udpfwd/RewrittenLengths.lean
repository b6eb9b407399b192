import IpApps.Udpfwd.MaxMessageSize
import IpApps.Udpfwd.ReplyFilter

/-!
# The lengths of a rewritten message

Whether the UDP and the IP length of a packet describe the message that the function leaves in
it. A request comes out through the length update at the end, which takes the write pointer for
the end of the message. A reply leaves before that, with the lengths it came with.
-/

namespace IpApps
namespace Udpfwd

open Memory Endian

/-- The UDP length covers the message through END, the IP length the headers and the message.
A message through END has the minimal length, so no zeros are to follow. -/
structure DescribesMessage (pkt : Packet) : Prop where
  message : ∃ items : List DhcpItem,
    slice pkt (dhcp pkt + optionsStart) ((Tlv.encode items).length + 1)
        = Tlv.encode items ++ [endTag] ∧
      dhcpPktlen pkt
        = (max minbootplen (optionsStart + ((Tlv.encode items).length + 1)) : ℕ)
  ipLen : ntohs pkt ipLenOff = ntohs pkt (udph pkt + uhUlenOff) + ipHl pkt * 4

/-- The bytes are complete items. -/
def ReadsAsItems (bytes : List UInt8) : Prop := ∃ items : List DhcpItem, bytes = Tlv.encode items

/-- A message through END is not shorter than the minimal length. -/
theorem max_minbootplen (n : ℕ) :
    max minbootplen (optionsStart + (n + 1)) = optionsStart + (n + 1) := by
  apply max_eq_right
  unfold minbootplen optionsStart
  omega

/-- The lengths that were set describe option bytes that are items through END. -/
theorem HoldsOptions.describes_iff {pkt pkt' : Packet} {options : List UInt8}
    (h : HoldsOptions pkt pkt' options)
    (hfit : optionsStart + options.length + udphdrLength + ipHl pkt * 4 < 2 ^ 16) :
    DescribesMessage pkt' ↔ ∃ items : List DhcpItem, options = Tlv.encode items ++ [endTag] := by
  have hdhcp : dhcp pkt' = dhcp pkt := dhcp_congr h.first
  have hlen := h.length
  have hbytes := h.bytes
  constructor
  · intro hdescribes
    obtain ⟨items, hitems, hcovers⟩ := hdescribes.message
    rw [hlen, max_minbootplen] at hcovers
    have hsame : options.length = (Tlv.encode items).length + 1 := by omega
    rw [← hsame, hdhcp, hbytes] at hitems
    exact ⟨items, hitems⟩
  · intro hreads
    obtain ⟨items, rfl⟩ := hreads
    have hcount : (Tlv.encode items ++ [endTag]).length = (Tlv.encode items).length + 1 := by
      rw [List.length_append, List.length_singleton]
    refine ⟨⟨items, ?_, ?_⟩, ?_⟩
    · rw [hdhcp, ← hcount, hbytes]
    · rw [hlen, max_minbootplen, hcount]
      push_cast
      rfl
    · have hhl : ipHl pkt' = ipHl pkt := by
        unfold ipHl
        rw [h.first]
      unfold dhcpPktlen at hlen
      rw [h.ipLen hfit, hhl]
      omega

/-! ## Requests -/

section requests

variable {c : Option82Call} {pkt : Packet} {items : List DhcpItem} {rest : List UInt8}

/-- In front of END and the new option there are complete items, unless the new option was
written over a value byte 255: then the rest of it has to read as items. -/
theorem reads_through_iff (items : List DhcpItem) (rest : List UInt8) {new : DhcpOpt}
    (htag : new.tag = dhcpAgentOptions) :
    (∃ zs : List DhcpItem, (written items (endTag :: rest)).take
        (optionOffset items (endTag :: rest)) ++ (new.encode ++ [endTag])
        = Tlv.encode zs ++ [endTag]) ↔
      (EndsInEndByte items → ReadsAsItems (new.len :: new.body)) := by
  have hitems (xs : List DhcpItem) : ∃ zs : List DhcpItem,
      Tlv.encode xs ++ (new.encode ++ [endTag]) = Tlv.encode zs ++ [endTag] := by
    refine ⟨xs ++ [.opt new], ?_⟩
    rw [Tlv.encode_append, Tlv.encode_opt, Tlv.encode_nil, List.append_nil, List.append_assoc]
  by_cases hlast : items.getLast? = some .pad
  · obtain ⟨before, rfl⟩ : ∃ before, items = before ++ [.pad] :=
      ⟨items.dropLast, (List.dropLast_append_getLast? _ hlast).symm⟩
    rw [written_take_of_pad, endsInEndByte_concat_pad]
    by_cases hbyte : (Tlv.encode (strip false before)).getLast? = some endTag
    · -- the tag of the new option is the last value byte of the option in front of it
      rw [if_pos hbyte]
      obtain ⟨kept, o, o', -, -, hbytes⟩ := encode_overwritten new htag hbyte
      rw [hbytes]
      constructor
      · intro hreads _
        obtain ⟨zs, hzs⟩ := hreads
        exact Tlv.encode_append_stop hzs
      · intro hreads
        obtain ⟨ys, hys⟩ := hreads hbyte
        refine ⟨kept ++ [.opt o'] ++ ys, ?_⟩
        rw [hys, Tlv.encode_append _ ys, List.append_assoc]
    · rw [if_neg hbyte]
      exact iff_of_true (hitems _) fun hends => absurd hends hbyte
  · rw [written_take_of_opt rest hlast]
    refine iff_of_true (hitems _) fun hends => ?_
    obtain ⟨before, hsplit, -⟩ := hends
    exact absurd (by rw [hsplit, List.getLast?_concat]) hlast

/-- The lengths of a request that was rewritten. -/
theorem request_describes_iff (h : WellFormed pkt items rest) (hop : dhcpOp pkt = bootrequest)
    (hworks : Works c pkt) (hgoes : GoesOn c.cfg.policy (giaddr pkt) false items)
    (hlengths : LengthsKept 0 false items) :
    DescribesMessage (c.process pkt).pkt ↔
      (RoomFor items c.cfg.rId → EndsInEndByte items →
        ReadsAsItems ((c.addedOption pkt items (endTag :: rest)).len
          :: (c.addedOption pkt items (endTag :: rest)).body)) ∧
      (¬ RoomFor items c.cfg.rId → items.getLast? ≠ some .pad) := by
  have hreq := h.isRequest hop
  have hip := ntohs_lt pkt ipLenOff
  have hulen := h.length
  rw [h.ipLen] at hip
  rw [List.length_append, List.length_cons] at hulen
  unfold dhcpPktlen at hulen
  have hhl : ipHl pkt ≤ 15 := by
    unfold ipHl
    omega
  by_cases hroom : RoomFor items c.cfg.rId
  · have hroom' := (roomAt_end items rest c.cfg.rId).mpr hroom
    obtain ⟨-, hholds⟩ := hreq.holds_of_room hlengths hworks hgoes h.hasMessageType hroom'
    have hsize := hroom'.1
    have hrl := remoteIdLength_le c.cfg.rId
    have hnew := c.size_newOption pkt
      (dhcp pkt + optionsStart + optionOffset items (endTag :: rest))
    have hwhere := optionOffset_le_endOffset items (endTag :: rest)
    rw [hholds.describes_iff, reads_through_iff items rest rfl]
    · exact ⟨fun hreads => ⟨fun _ => hreads, fun hfull => absurd hroom hfull⟩,
        fun hcond => hcond.1 hroom⟩
    · rw [List.length_append, List.length_append, List.length_take, Tlv.Opt.length_encode,
        Option82Call.addedOption, hnew, List.length_singleton]
      unfold optionsStart recvBufferSize at hsize
      unfold optionsStart udphdrLength
      omega
  · have hroom' := (not_congr (roomAt_end items rest c.cfg.rId)).mpr hroom
    obtain ⟨-, hholds⟩ := hreq.holds_of_no_room hlengths hworks hgoes h.hasMessageType hroom'
    have hkept := length_encode_strip_le false items
    obtain ⟨hend, hpad⟩ := written_take_endOffset items rest
    rw [hholds.describes_iff]
    · by_cases hlast : items.getLast? = some .pad
      · obtain ⟨before, -, htake⟩ := hpad hlast
        rw [htake]
        refine iff_of_false (fun hreads => ?_) fun hcond => hcond.2 hroom hlast
        -- items without END are not items with END
        obtain ⟨zs, hzs⟩ := hreads
        have hnone := Tlv.parse_encode_eq_none (strip false before)
        have hsome : Tlv.parse dhcpFormat (Tlv.encode zs ++ [endTag]) = some zs :=
          Tlv.parse_encode zs []
        rw [hzs, hsome] at hnone
        cases hnone
      · rw [hend hlast]
        exact iff_of_true ⟨_, rfl⟩ ⟨fun hfree => absurd hfree hroom, fun _ => hlast⟩
    · rw [List.length_take]
      have hlen : (written items (endTag :: rest)).length
          ≤ (Tlv.encode items).length + 1 := by
        rw [written, List.length_append, List.take_succ_cons, List.take_zero,
          List.length_singleton]
        omega
      unfold udphdrLength at hulen ⊢
      omega

end requests

/-! ## Replies -/

/-- Stripping an option leaves fewer bytes. -/
theorem strip_eq_of_length {isDhcp : Bool} {items : List DhcpItem}
    (h : (Tlv.encode (strip isDhcp items)).length = (Tlv.encode items).length) :
    strip isDhcp items = items := by
  induction items generalizing isDhcp with
  | nil => rfl
  | cons item items ih =>
    cases item with
    | pad =>
      rw [strip, ih]
      simpa [strip] using h
    | opt o =>
      unfold strip at h ⊢
      split
      · rename_i hstrip
        have hle := length_encode_strip_le isDhcp items
        rw [if_pos hstrip, Tlv.encode_opt, List.length_append, Tlv.Opt.length_encode,
          Tlv.Opt.size] at h
        omega
      · rename_i hstay
        rw [if_neg hstay, Tlv.encode_opt, Tlv.encode_opt, List.length_append,
          List.length_append] at h
        rw [ih (by omega)]

/-- The first items move no length octet if none of them does. -/
theorem lengthsKept_of_append {shift : ℕ} {isDhcp : Bool} {before after : List DhcpItem}
    (h : LengthsKept shift isDhcp (before ++ after)) : LengthsKept shift isDhcp before := by
  induction before generalizing shift isDhcp with
  | nil => trivial
  | cons item before ih =>
    cases item with
    | pad => exact ih h
    | opt o =>
      rw [List.cons_append] at h
      unfold LengthsKept at h ⊢
      split
      · rename_i hstrip
        rw [if_pos hstrip] at h
        exact ih h
      · rename_i hstay
        rw [if_neg hstay] at h
        exact ⟨h.1, ih h.2⟩

section replies

variable {cfg : FeatureConfig} {host : Host} {ifName : CString} {dhcp max : ℤ} {s : Scan}
variable {items : List DhcpItem}

/-- Without a relay agent address a reply is dropped at the first option to strip. -/
theorem InLine.drops_reply (h : InLine (dhcp + optionsOff + magicLen) s 0 items)
    (hop : s.pkt (dhcp + opOff) = bootreply) (hgi : ipAt s.pkt (dhcp + giaddrOff) = 0)
    (hstrip : strip s.isDhcp items ≠ items)
    (hmax : s.optionParserPtr + (Tlv.encode items).length ≤ max) (rounds : ℕ) :
    ∃ s', optionLoop cfg host ifName dhcp max (items.length + rounds) s = .ret .dropped s' := by
  induction items generalizing s with
  | nil => exact absurd rfl hstrip
  | cons item items ih =>
    have hpos : 0 < item.encode.length := by
      cases item with
      | pad => exact Nat.one_pos
      | opt o => exact Nat.succ_pos _
    have hcons : Tlv.encode (item :: items) = item.encode ++ Tlv.encode items := rfl
    have hbytes := h.bytes_cons.1
    rw [hcons, List.length_append] at hmax
    rw [List.length_cons, show items.length + 1 + rounds = items.length + rounds + 1 by omega,
      optionLoop, if_pos (by omega)]
    by_cases hfirst : strip s.isDhcp [item] = [item]
    · -- the item stays where it is
      have hstep : ∃ s₁, optionStep cfg host ifName dhcp max s = .next s₁ ∧
          (s.absorb item).SamePlace s₁ ∧ shiftAfter 0 s.isDhcp item = 0 := by
        cases item with
        | pad =>
          rw [Tlv.Item.encode, List.length_singleton, slice_succ] at hbytes
          exact ⟨_, optionStep_pad (List.cons.inj hbytes).1, ⟨rfl, rfl, rfl, rfl⟩, rfl⟩
        | opt o =>
          have hstay : ¬ Strips s.isDhcp o := by
            intro hgone
            simp [strip, hgone] at hfirst
          obtain ⟨s₁, hnext, hplace, -⟩ :=
            optionStep_keep_reply hbytes h.ptr (Or.inl rfl) hop hstay
          exact ⟨s₁, hnext, hplace, if_neg hstay⟩
      obtain ⟨s₁, hnext, hplace, hshift⟩ := hstep
      obtain ⟨hop', hgi'⟩ := h.absorb_fields
      have hline := h.absorb
      rw [hshift] at hline
      have hptr : s₁.optionParserPtr = s.optionParserPtr + item.encode.length := by
        rw [hplace.optionParserPtr, InLine.absorb_optionParserPtr]
      rw [hnext]
      apply ih (hline.samePlace hplace)
      · rw [hplace.pkt, hop', hop]
      · rw [hplace.pkt, hgi', hgi]
      · intro hrest
        apply hstrip
        rw [strip_cons, hfirst, ← hplace.isDhcp, hrest]
        rfl
      · omega
    · -- the first option to strip
      cases item with
      | pad => exact absurd rfl hfirst
      | opt o =>
        have hgone : Strips s.isDhcp o = true := by
          by_contra hstay
          simp [strip, hstay] at hfirst
        simp only [Strips, decide_eq_true_eq] at hgone
        obtain ⟨htag, -⟩ := option_head hbytes
        have hret : optionStep cfg host ifName dhcp max s = .ret .dropped s := by
          unfold optionStep
          simp only [htag, hgone.2]
          rw [if_neg (by decide), if_neg (by decide), if_neg (by decide), if_neg (by decide),
            if_pos trivial, if_neg (by simp [hgone.1]), agentOptionStep, if_pos hgi]
        rw [hret]
        exact ⟨s, rfl⟩

end replies

section replies

variable {c : Option82Call} {pkt : Packet} {items : List DhcpItem} {rest : List UInt8}

/-- Behind the message type every relay agent option is stripped. -/
theorem WellFormed.strip_ne (h : WellFormed pkt items rest)
    (hagent : ∃ o ∈ Tlv.options items, o.tag = dhcpAgentOptions) : strip false items ≠ items := by
  intro heq
  obtain ⟨o, ho, htag⟩ := hagent
  have hoptions := h.options_strip
  rw [heq] at hoptions
  rw [hoptions, withoutAgentOptions, List.mem_filter] at ho
  exact absurd htag (by simpa using ho.2)

/-- A reply that loses an option 82 and is not dropped names a relay agent. -/
theorem WellFormed.giaddr_ne_zero (h : WellFormed pkt items rest) (hop : dhcpOp pkt = bootreply)
    (hworks : Works c pkt) (hstrip : strip false items ≠ items)
    (hvalid : (c.process pkt).result = .valid) : giaddr pkt ≠ 0 := by
  intro hzero
  have hmax := optionsMax_of_length h.length
  rw [List.length_append, List.length_cons] at hmax
  have hline : InLine (dhcp pkt + optionsOff + magicLen) (Scan.start pkt c.pktInfo) 0 items :=
    ⟨(slice_items_end h.bytes).1, by simp [Scan.start], Int.le_refl _⟩
  have hstart : (Scan.start pkt c.pktInfo).optionParserPtr = dhcp pkt + optionsStart := rfl
  have hitems := Tlv.length_le_length_encode items
  obtain ⟨rounds, hrounds⟩ :
      ∃ rounds, (optionsMax pkt - (dhcp pkt + optionsStart)).toNat = items.length + rounds :=
    ⟨(optionsMax pkt - (dhcp pkt + optionsStart)).toNat - items.length, by omega⟩
  -- without agent address the loop drops the reply
  obtain ⟨s, hret⟩ := @InLine.drops_reply c.cfg c.host c.ifName _ (optionsMax pkt) _ _ hline hop
    hzero hstrip (by rw [hstart]; omega) rounds
  have hscan : scanOptions c.cfg c.host c.ifName pkt c.pktInfo = .ret .dropped s := by
    unfold scanOptions
    simp only [hstart, hrounds]
    exact hret
  rw [process_of_works hworks, hscan] at hvalid
  exact absurd hvalid (by simp)

/-- Such a reply comes out with the items that stay and END written over its options, and with
the lengths it came with. -/
theorem WellFormed.reply_written (h : WellFormed pkt items rest) (hop : dhcpOp pkt = bootreply)
    (hworks : Works c pkt) (hlengths : LengthsKept 0 false items)
    (hstrip : strip false items ≠ items) (hvalid : (c.process pkt).result = .valid) :
    (c.process pkt).pkt = store pkt (dhcp pkt + optionsStart)
        (Tlv.encode (strip false items) ++ [endTag]) ∧
      dhcp (c.process pkt).pkt = dhcp pkt ∧ dhcpPktlen (c.process pkt).pkt = dhcpPktlen pkt := by
  let r : Reply :=
    { cfg := c.cfg, host := c.host, pkt := pkt, pktInfo := c.pktInfo, ifIndex := c.ifIndex
      ifName := c.ifName, bootpGw := c.bootpGw, items := items, rest := rest
      enabled := hworks.enabled, op := hop, cookie := hworks.cookie
      giaddr := h.giaddr_ne_zero hop hworks hstrip hvalid
      length := h.length, bytes := h.bytes, messageType := h.messageType }
  have hsame : r.outcome = c.process pkt := rfl
  have hseen : LengthsKept 0 false r.seen := by
    obtain ⟨-, after, hsplit, -⟩ := r.seen_split
    have hall : LengthsKept 0 false (r.seen ++ after) := by
      rw [hsplit]
      exact hlengths
    exact lengthsKept_of_append hall
  -- a reply with an option that is judged invalid is dropped
  have hjudged : ¬ r.Judged .invalid := by
    intro hinvalid
    have hdropped := r.result_of_invalid hseen hinvalid
    rw [hsame, hvalid] at hdropped
    exact absurd hdropped (by decide)
  obtain ⟨s, hout, hpkt, hdhcp, -⟩ := r.outcome_of_valid hseen hjudged
  have hreply : s.pkt (dhcp pkt + opOff) = bootreply := by
    have hbase : r.base = dhcp pkt + 240 := rfl
    rw [hpkt, store_of_lt _ (by unfold opOff; omega)]
    exact hop
  have hfinal : (c.process pkt).pkt = store r.pkt r.base (r.kept ++ [endTag]) := by
    rw [← hsame, hout, ← hpkt]
    unfold finishOption82
    rw [if_neg (by simp [hdhcp]), if_pos hreply]
    split <;> rfl
  exact ⟨hfinal, r.front_of_kept hfinal⟩

/-- A reply that lost an option 82 keeps the lengths it came with. -/
theorem reply_not_described (h : WellFormed pkt items rest) (hop : dhcpOp pkt = bootreply)
    (hworks : Works c pkt) (hlengths : LengthsKept 0 false items)
    (hagent : ∃ o ∈ Tlv.options items, o.tag = dhcpAgentOptions)
    (hvalid : (c.process pkt).result = .valid) : ¬ DescribesMessage (c.process pkt).pkt := by
  have hstrip := h.strip_ne hagent
  obtain ⟨hfinal, hwhere, hcovered⟩ := h.reply_written hop hworks hlengths hstrip hvalid
  intro hdescribes
  obtain ⟨items', hitems', hcovers⟩ := hdescribes.message
  rw [hcovered, max_minbootplen, h.length, List.length_append, List.length_cons] at hcovers
  have hkept := length_encode_strip_le false items
  generalize hwritten : Tlv.encode (strip false items) ++ [endTag] = kept at hfinal
  have hlen : kept.length = (Tlv.encode (strip false items)).length + 1 := by
    rw [← hwritten, List.length_append, List.length_singleton]
  -- the message through END is what was written
  obtain ⟨k, hk⟩ : ∃ k, (Tlv.encode items').length + 1 = kept.length + k :=
    ⟨(Tlv.encode items').length + 1 - kept.length, by omega⟩
  have hself : slice (c.process pkt).pkt (dhcp pkt + optionsStart) kept.length = kept := by
    rw [hfinal, slice_store_self]
  rw [hwhere, hk, slice_add, hself, ← hwritten, List.append_assoc] at hitems'
  have hrest : strip false items = items' := Tlv.encode_stop_injective hitems'
  -- so the length that came in covers nothing behind END, and nothing was stripped
  apply hstrip
  apply strip_eq_of_length
  rw [← hrest] at hcovers
  omega

end replies

/-! ## Both directions -/

/-- If the moves keep the length octets, the lengths of a request describe the message exactly
if the new option was not written over a value byte 255, or what is left of it reads as items,
and no pad ends the options of a message without room. The lengths of a reply that lost an
option 82 never do. -/
theorem rewritten_lengths_iff {c : Option82Call} {pkt : Packet} {items : List DhcpItem}
    {rest : List UInt8} (h : WellFormed pkt items rest) (hworks : Works c pkt)
    (hlengths : LengthsKept 0 false items) :
    (dhcpOp pkt = bootrequest → GoesOn c.cfg.policy (giaddr pkt) false items →
      (DescribesMessage (c.process pkt).pkt ↔
        (RoomFor items c.cfg.rId → EndsInEndByte items →
          ReadsAsItems ((c.addedOption pkt items (endTag :: rest)).len
            :: (c.addedOption pkt items (endTag :: rest)).body)) ∧
        (¬ RoomFor items c.cfg.rId → items.getLast? ≠ some .pad))) ∧
    (dhcpOp pkt = bootreply → (∃ o ∈ Tlv.options items, o.tag = dhcpAgentOptions) →
      (c.process pkt).result = .valid → ¬ DescribesMessage (c.process pkt).pkt) :=
  ⟨fun hop hgoes => request_describes_iff h hop hworks hgoes hlengths,
    fun hop hagent hvalid => reply_not_described h hop hworks hlengths hagent hvalid⟩

/-- The items of a reply with another agent's option 82 as the last one. -/
def echoedItems : List DhcpItem :=
  [.opt offerOption, .opt clientIdOption, .opt otherAgentOption]

def sizedReply : Packet :=
  store (sizedRequest [10, 0, 0, 1] (Tlv.encode echoedItems ++ [endTag])) 28 [bootreply]

theorem sizedReply_wellFormed : WellFormed sizedReply echoedItems [] where
  length := by decide +kernel
  bytes := by decide +kernel
  messageType := ⟨[], offerOption, _, rfl, rfl, fun _ h => absurd h List.not_mem_nil⟩
  ipLen := by decide +kernel

theorem sizedReply_works :
    Works replaceCall sizedReply ∧ dhcpOp sizedReply = bootreply ∧
      (∃ o ∈ Tlv.options echoedItems, o.tag = dhcpAgentOptions) ∧
      (replaceCall.process sizedReply).result = .valid :=
  ⟨⟨rfl, by decide +kernel⟩, by decide +kernel, ⟨otherAgentOption, by simp [echoedItems], rfl⟩,
    by decide +kernel⟩

theorem echoedItems_lengthsKept : LengthsKept 0 false echoedItems :=
  ⟨Or.inl rfl, Or.inl rfl, trivial⟩

/-- The request at the limit is described, the reply that lost the last option is not. -/
theorem rewritten_lengths_iff_sizedReply :
    DescribesMessage (replaceCall.process limitRequest).pkt ∧
      ¬ DescribesMessage (replaceCall.process sizedReply).pkt := by
  have hlimit := (rewritten_lengths_iff limitRequest_wellFormed limitRequest_works.2
    (lengthsKept_of_no_agent limitItems_noAgent false)).1 limitRequest_works.1
    (limitItems_goesOn _)
  refine ⟨hlimit.mpr ⟨fun _ hends => absurd hends limitItems_ends,
    fun hfull => absurd limitItems_fits.1 hfull⟩, ?_⟩
  exact (rewritten_lengths_iff sizedReply_wellFormed sizedReply_works.1
    echoedItems_lengthsKept).2 sizedReply_works.2.1 sizedReply_works.2.2.1 sizedReply_works.2.2.2

/-- The four bytes of the option that was removed are still sent, behind END. -/
theorem reply_lengths_stale :
    ¬ ∀ (c : Option82Call) (pkt : Packet) (items : List DhcpItem) (rest : List UInt8),
      WellFormed pkt items rest → Works c pkt → dhcpOp pkt = bootreply →
      (∃ o ∈ Tlv.options items, o.tag = dhcpAgentOptions) →
      (c.process pkt).result = .valid → DescribesMessage (c.process pkt).pkt := by
  intro h
  have hdescribes := h replaceCall sizedReply echoedItems [] sizedReply_wellFormed
    sizedReply_works.1 sizedReply_works.2.1 sizedReply_works.2.2.1 sizedReply_works.2.2.2
  exact reply_not_described sizedReply_wellFormed sizedReply_works.2.1 sizedReply_works.1
    echoedItems_lengthsKept sizedReply_works.2.2.1 sizedReply_works.2.2.2 hdescribes

end Udpfwd
end IpApps
