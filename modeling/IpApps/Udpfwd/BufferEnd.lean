import IpApps.Udpfwd.MaxMessageSize

/-!
# The end of the receive buffer

The room check compares the length of the DHCP message with the size of the whole buffer, which
holds the IP and UDP headers as well. Whether the function writes behind the buffer is said by
what becomes of the bytes that lie there: with any bytes in place of them, they stay.
-/

namespace IpApps
namespace Udpfwd

open Memory Endian

/-- Nothing is written behind the receive buffer, whatever lies there. -/
def StaysInBuffer (c : Option82Call) (pkt : Packet) : Prop :=
  ∀ pkt', AgreeTo pkt' pkt recvBufferSize →
    ∀ a : ℤ, recvBufferSize ≤ a → (c.process pkt').pkt a = pkt' a

/-- A request that was received into the buffer, with lengths that agree. -/
structure ReceivedRequest (pkt : Packet) (items : List DhcpItem) (tail : List UInt8) : Prop where
  request : IsRequest pkt items tail
  ipLen : ntohs pkt ipLenOff = ntohs pkt (udph pkt + uhUlenOff) + ipHl pkt * 4
  size : ntohs pkt ipLenOff ≤ recvBufferSize - 1

/-- The function adds its option to the request: it is enabled, the request is a DHCP message
whose options the loop passes, and there is room under the code's checks. -/
structure AddsOption (c : Option82Call) (pkt : Packet) (items : List DhcpItem)
    (tail : List UInt8) : Prop where
  works : Works c pkt
  goesOn : GoesOn c.cfg.policy (giaddr pkt) false items
  messageType : ∃ o ∈ Tlv.options items, o.tag = dhcpMsgtype
  room : RoomAt (endOffset items tail) items c.cfg.rId

/-- How far the writes of the new option reach in the buffer. -/
def Option82Call.reach (c : Option82Call) : ℕ :=
  optionReach c.host c.ifName c.bootpGw c.cfg.rId c.pktInfo

section inside

variable {c : Option82Call} {pkt pkt' : Packet} {items : List DhcpItem} {tail : List UInt8}

/-- The message ends in the buffer. -/
theorem ReceivedRequest.end_lt (h : ReceivedRequest pkt items tail) :
    dhcp pkt + optionsStart + (Tlv.encode items ++ tail).length < recvBufferSize := by
  have hlen := h.request.length
  have hip := h.ipLen
  have hsize := h.size
  have hdhcp : dhcp pkt = udph pkt + udphdrLength := rfl
  have hudph : udph pkt = (ipHl pkt * 4 : ℕ) := rfl
  unfold dhcpPktlen at hlen
  unfold recvBufferSize at hsize ⊢
  omega

/-- What lies behind the buffer is not read. -/
theorem ReceivedRequest.of_agree (h : ReceivedRequest pkt items tail)
    (hagree : AgreeTo pkt' pkt recvBufferSize) : IsRequest pkt' items tail ∧
      dhcp pkt' = dhcp pkt ∧ giaddr pkt' = giaddr pkt ∧ (Works c pkt' ↔ Works c pkt) := by
  have hend := h.end_lt
  have hpos : 0 ≤ udph pkt := Int.natCast_nonneg _
  have hdhcp0 : dhcp pkt = udph pkt + 8 := rfl
  have hfirst : pkt' 0 = pkt 0 := hagree 0 (le_refl 0) (by decide)
  have hdhcp : dhcp pkt' = dhcp pkt := dhcp_congr hfirst
  have hudph : udph pkt' = udph pkt := by
    unfold udph ipHl
    rw [hfirst]
  unfold optionsStart at hend
  -- every field that is looked at lies in the buffer
  have hulen : ntohs pkt' (udph pkt + uhUlenOff) = ntohs pkt (udph pkt + uhUlenOff) := by
    unfold ntohs
    rw [hagree.slice (by unfold uhUlenOff; omega) (by unfold uhUlenOff; omega)]
  have hop : pkt' (dhcp pkt + opOff) = pkt (dhcp pkt + opOff) := by
    unfold opOff
    exact hagree _ (by omega) (by omega)
  have hgi : giaddr pkt' = giaddr pkt := by
    unfold giaddr ipAt
    rw [hdhcp, hagree.slice (by unfold giaddrOff; omega) (by unfold giaddrOff; omega)]
  have hcookie : slice pkt' (dhcp pkt + optionsOff) magicLen
      = slice pkt (dhcp pkt + optionsOff) magicLen :=
    hagree.slice (by unfold optionsOff; omega) (by unfold optionsOff magicLen; omega)
  refine ⟨⟨?_, ?_, ?_, h.request.ends⟩, hdhcp, hgi, ?_⟩
  · rw [dhcpOp, hdhcp, hop]
    exact h.request.op
  · rw [dhcpPktlen, hudph, hulen]
    exact h.request.length
  · rw [hdhcp, hagree.slice (by unfold optionsStart; omega) (by unfold optionsStart; omega)]
    exact h.request.bytes
  · constructor
    · intro hworks
      refine ⟨hworks.enabled, ?_⟩
      rw [← hcookie, ← hdhcp]
      exact hworks.cookie
    · intro hworks
      refine ⟨hworks.enabled, ?_⟩
      rw [hdhcp, hcookie]
      exact hworks.cookie

/-- What the loop writes lies in front of the end of the message. -/
theorem written_end_le (items : List DhcpItem) (tail : List UInt8) :
    (written items tail).length ≤ (Tlv.encode items ++ tail).length := by
  have hkept := length_encode_strip_le false items
  unfold written
  rw [List.length_append, List.length_append, List.length_take]
  omega

/-- Behind the message, only the new option and what it reaches are written. -/
theorem process_above (h : IsRequest pkt items tail) (hlengths : LengthsKept 0 false items) {a : ℤ}
    (hend : dhcp pkt + optionsStart + (Tlv.encode items ++ tail).length < a)
    (hreach : AddsOption c pkt items tail →
      dhcp pkt + optionsStart + optionOffset items tail + c.reach ≤ a) :
    (c.process pkt).pkt a = pkt a := by
  have hwritten := written_end_le items tail
  have hfit := h.written_le
  have hpos : 0 ≤ dhcp pkt := by
    unfold dhcp udph
    omega
  by_cases hworks : Works c pkt
  · -- the loop goes on to the end of the options, and the lengths are written
    by_cases hgoes : GoesOn c.cfg.policy (giaddr pkt) false items
    · by_cases hmsg : ∃ o ∈ Tlv.options items, o.tag = dhcpMsgtype
      · have hlow : dhcp pkt + minbootplen ≤ a := by
          have hmin : minbootplen = optionsStart + 1 := rfl
          omega
        by_cases hroom : RoomAt (endOffset items tail) items c.cfg.rId
        · -- the new option is written
          have hwhere := hreach ⟨hworks, hgoes, hmsg, hroom⟩
          have hsize := hroom.1
          have hrl := remoteIdLength_le c.cfg.rId
          have hle := optionOffset_le_endOffset items tail
          unfold recvBufferSize at hsize
          rw [h.process_of_room hlengths hworks hgoes hmsg hroom]
          show updateLengths (dhcp pkt) _ _ a = pkt a
          rw [@updateLengths_above pkt _ (optionsStart + optionOffset items tail + 10
              + remoteIdLength c.cfg.rId + 1) (by push_cast; ring) (by omega) _ _ hlow,
            writeAgentOption_above _ _ hwhere, store_of_ge _ (by omega)]
        · have hle := endOffset_le items tail
          rw [h.process_of_no_room hlengths hworks hgoes hmsg hroom]
          show updateLengths (dhcp pkt) _ _ a = pkt a
          rw [@updateLengths_above pkt _ (optionsStart + endOffset items tail)
            (by push_cast; ring) (by omega) _ _ hlow, store_of_ge _ (by omega)]
      · rw [h.process_of_plain hlengths hworks hgoes hmsg, store_of_ge _ (by omega)]
    · -- the items in front of the one the loop returns at have been moved
      obtain ⟨before, after, hsplit, hpkt, -⟩ := h.process_of_not_goesOn hlengths hworks hgoes
      have hkept := length_encode_strip_le false before
      rw [hsplit, Tlv.encode_append, List.append_assoc, List.length_append] at hend
      rw [hpkt, store_of_ge _ (by omega)]
  · rw [(process_of_not_works hworks).2]

/-- The last byte the new option reaches is written, whatever it was. -/
theorem process_last (h : IsRequest pkt items tail) (hlengths : LengthsKept 0 false items)
    (hadds : AddsOption c pkt items tail) {b : UInt8}
    (hlast : ∀ (pkt : Packet) (sp : ℤ),
      (writeAgentOption c.host c.ifIndex c.ifName c.bootpGw c.cfg.rId c.pktInfo pkt sp).1
        (sp + c.reach - 1) = b) :
    (c.process pkt).pkt (dhcp pkt + optionsStart + optionOffset items tail + c.reach - 1) = b := by
  have hsize := hadds.room.1
  have hrl := remoteIdLength_le c.cfg.rId
  have hle := optionOffset_le_endOffset items tail
  have hreach : 10 < c.reach := by
    unfold Option82Call.reach optionReach
    omega
  unfold recvBufferSize at hsize
  rw [h.process_of_room hlengths hadds.works hadds.goesOn hadds.messageType hadds.room]
  show updateLengths (dhcp pkt) _ _ _ = b
  rw [@updateLengths_above pkt _ (optionsStart + optionOffset items tail + 10
    + remoteIdLength c.cfg.rId + 1) (by push_cast; ring) (by omega)]
  · exact hlast _ _
  · unfold minbootplen optionsStart
    omega

/-- The option fits into the buffer: nothing is written behind it. -/
theorem staysInBuffer_of_fits (h : ReceivedRequest pkt items tail)
    (hlengths : LengthsKept 0 false items)
    (hfits : AddsOption c pkt items tail →
      dhcp pkt + optionsStart + optionOffset items tail + c.reach ≤ recvBufferSize) :
    StaysInBuffer c pkt := by
  intro pkt' hagree a ha
  obtain ⟨hreq, hdhcp, hgi, hworks⟩ := @ReceivedRequest.of_agree c _ _ _ _ h hagree
  have hend := h.end_lt
  apply process_above hreq hlengths
  · rw [hdhcp]
    omega
  · intro hadds
    have hwhere := hfits ⟨hworks.mp hadds.works, hgi ▸ hadds.goesOn, hadds.messageType, hadds.room⟩
    rw [hdhcp]
    omega

/-- It does not fit: another byte behind the buffer would be overwritten. -/
theorem not_staysInBuffer (h : ReceivedRequest pkt items tail)
    (hlengths : LengthsKept 0 false items) (hadds : AddsOption c pkt items tail)
    (hover : recvBufferSize < dhcp pkt + optionsStart + optionOffset items tail + c.reach) :
    ¬ StaysInBuffer c pkt := by
  intro hstays
  obtain ⟨b, hlast⟩ :=
    writeAgentOption_last c.host c.ifIndex c.ifName c.bootpGw c.cfg.rId c.pktInfo
  -- a packet that holds something else in the last cell
  let pkt' : Packet := fun a =>
    if a = dhcp pkt + optionsStart + optionOffset items tail + c.reach - 1 then b + 1 else pkt a
  have hagree : AgreeTo pkt' pkt recvBufferSize := by
    intro a _ ha
    exact if_neg (by omega)
  obtain ⟨hreq, hdhcp, hgi, hworks⟩ := @ReceivedRequest.of_agree c _ _ _ _ h hagree
  have hadds' : AddsOption c pkt' items tail :=
    ⟨hworks.mpr hadds.works, hgi ▸ hadds.goesOn, hadds.messageType, hadds.room⟩
  have hnew := process_last hreq hlengths hadds' hlast
  rw [hdhcp, hstays pkt' hagree _ (by omega)] at hnew
  have hcell : pkt' (dhcp pkt + optionsStart + optionOffset items tail + c.reach - 1) = b + 1 :=
    if_pos rfl
  rw [hcell] at hnew
  exact absurd hnew (by simp)

end inside

/-! ## Any packet -/

/-- What the loop leaves alone in any packet: it writes nothing from `top` on, which the write
pointer does not pass. -/
structure Below (top : ℤ) (pkt : Packet) (s : Scan) : Prop where
  above : ∀ a, top ≤ a → s.pkt a = pkt a
  ptr : s.sp ≤ s.optionParserPtr
  sp : s.sp ≤ top
  endPad : ∀ e ∈ s.endPad, e ≤ top

section below

variable {cfg : FeatureConfig} {host : Host} {ifName : CString} {dhcp max top : ℤ}
variable {pkt : Packet} {s s' : Scan}

/-- An option takes at most 257 bytes. -/
theorem Below.keepOption (h : Below top pkt s) (hptr : s.optionParserPtr + 257 ≤ top) :
    Below top pkt s.keepOption := by
  have hsp := h.ptr
  have hmoved := (s.pkt (s.optionParserPtr + 1)).toNat_lt
  unfold Scan.keepOption
  generalize hpkt : (if s.sp ≠ s.optionParserPtr then
    memmove s.pkt s.sp s.optionParserPtr
      ((s.pkt (s.optionParserPtr + 1)).toNat + dhcpOptionHeaderLength) else s.pkt) = moved
  have hlen := (moved (s.optionParserPtr + 1)).toNat_lt
  simp only [dhcpOptionHeaderLength]
  refine ⟨?_, ?_, ?_, fun e he => absurd he (Option.not_mem_none e)⟩
  · intro a ha
    rw [← hpkt]
    show (if s.sp ≠ s.optionParserPtr then _ else s.pkt) a = pkt a
    split
    · unfold memmove dhcpOptionHeaderLength
      rw [store_of_ge _ (by rw [length_slice]; omega), h.above a ha]
    · exact h.above a ha
  · show s.sp + _ ≤ s.optionParserPtr + _
    omega
  · show s.sp + _ ≤ top
    omega

/-- A round in front of `max` writes at most one option. -/
theorem Below.step (h : Below top pkt s) (hmax : s.optionParserPtr < max) (htop : max + 256 ≤ top)
    (hstep : optionStep cfg host ifName dhcp max s = .next s') : Below top pkt s' := by
  have hptr := h.ptr
  rcases optionStep_cases hstep with rfl | rfl | ⟨endPad, isDhcp, maxMsgSize, rfl, -⟩
    | ⟨pktInfo, good, rfl, -, -⟩
  · refine ⟨?_, ?_, ?_, ?_⟩
    · intro a ha
      show store s.pkt s.sp _ a = pkt a
      rw [store_of_ge _ (by rw [List.length_singleton]; omega), h.above a ha]
    · show s.sp + 1 ≤ s.optionParserPtr + 1
      omega
    · show s.sp + 1 ≤ top
      omega
    · intro e he
      rw [← Option.some.inj he]
      exact h.sp
  · refine ⟨?_, ?_, ?_, h.endPad⟩
    · intro a ha
      show (if s.sp ≠ s.optionParserPtr then _ else s.pkt) a = pkt a
      split
      · rw [store_of_ge _ (by rw [List.length_singleton]; omega), h.above a ha]
      · exact h.above a ha
    · show s.sp + 1 ≤ max
      omega
    · show s.sp + 1 ≤ top
      omega
  · -- the pad pointer of the scan that is kept does not matter: it is reset
    have hbelow : Below top pkt { s with endPad := none, isDhcp, maxMsgSize } :=
      ⟨h.above, hptr, h.sp, fun e he => nomatch he⟩
    have hkept := hbelow.keepOption (show s.optionParserPtr + 257 ≤ top by omega)
    exact ⟨hkept.above, hkept.ptr, hkept.sp, hkept.endPad⟩
  · refine ⟨h.above, ?_, h.sp, fun e he => nomatch he⟩
    show s.sp ≤ s.optionParserPtr + _ + _
    omega

/-- The whole loop, whether it goes on or returns. -/
theorem Below.loop (h : Below top pkt s) (htop : max + 256 ≤ top) (rounds : ℕ) :
    match optionLoop cfg host ifName dhcp max rounds s with
    | .next s' => Below top pkt s'
    | .ret _ s' => ∀ a, top ≤ a → s'.pkt a = pkt a := by
  induction rounds generalizing s with
  | zero => exact h
  | succ rounds ih =>
    unfold optionLoop
    by_cases hmax : s.optionParserPtr < max
    · rw [if_pos hmax]
      cases hstep : optionStep cfg host ifName dhcp max s with
      | next s₁ => exact ih (h.step hmax htop hstep)
      | ret result s₁ =>
        intro a ha
        rw [(optionStep_ret hstep).2]
        exact h.above a ha
    · rw [if_neg hmax]
      exact h

end below

/-- The new option is written between the options and what it reaches behind them. -/
theorem addAgentOption_bounds (c : Option82Call) {dhcp base top : ℤ} {pkt : Packet} {s : Scan}
    (hbelow : Below top pkt s) (hbehind : Behind base pkt s) :
    let w := addAgentOption c.host c.ifIndex c.ifName c.bootpGw c.cfg.rId dhcp s
    (s.pktInfo = c.pktInfo → ∀ a, top + c.reach ≤ a → w.1 a = pkt a) ∧ base - 1 ≤ w.2 ∧
      w.2 ≤ top + 17 := by
  have hfrom := hbehind.appendPtr
  have hto : s.appendPtr ≤ top := by
    unfold Scan.appendPtr
    cases hpad : s.endPad with
    | none => exact hbelow.sp
    | some e => exact hbelow.endPad e hpad
  have hoption : base - 1 ≤ s.optionPtr ∧ s.optionPtr ≤ top := by
    unfold Scan.optionPtr
    split <;> omega
  have hrl := remoteIdLength_le c.cfg.rId
  unfold addAgentOption
  split
  · refine ⟨fun hinfo a ha => ?_, ?_, ?_⟩
    · rw [hinfo, writeAgentOption_above _ _ (by unfold Option82Call.reach at ha; omega)]
      exact hbelow.above a (by omega)
    · rw [writeAgentOption_stores]
      show base - 1 ≤ s.optionPtr + 10 + remoteIdLength c.cfg.rId + 1
      omega
    · rw [writeAgentOption_stores]
      show s.optionPtr + 10 + remoteIdLength c.cfg.rId + 1 ≤ top + 17
      omega
  · exact ⟨fun _ a ha => hbelow.above a (by omega), by show base - 1 ≤ s.appendPtr; omega,
      by show s.appendPtr ≤ top + 17; omega⟩

/-- With 256 bytes to spare nothing that is misread makes a difference. -/
theorem process_above_any (c : Option82Call) (pkt : Packet) (hlen : 0 ≤ dhcpPktlen pkt) {a : ℤ}
    (ha : dhcp pkt + dhcpPktlen pkt + 256 + c.reach ≤ a) : (c.process pkt).pkt a = pkt a := by
  have hlt := ntohs_lt pkt (udph pkt + uhUlenOff)
  have hmax : optionsMax pkt = dhcp pkt + dhcpPktlen pkt := by
    unfold optionsMax
    unfold dhcpPktlen at hlen ⊢
    omega
  have hreach : 10 < c.reach := by
    unfold Option82Call.reach optionReach
    omega
  have hfit : dhcpPktlen pkt < 2 ^ 16 := by
    unfold dhcpPktlen
    omega
  generalize htop : dhcp pkt + dhcpPktlen pkt + 256 = top at ha
  by_cases hworks : Works c pkt
  · -- the scan writes below `top`, whatever it reads
    have hstart : Below top pkt (Scan.start pkt c.pktInfo) :=
      ⟨fun _ _ => rfl, Int.le_refl _, by show dhcp pkt + optionsOff + magicLen ≤ top
                                         unfold optionsOff magicLen
                                         omega, fun e he => nomatch he⟩
    have hbehind := start_behind pkt c.pktInfo
    have hloop := @Below.loop c.cfg c.host c.ifName (dhcp pkt) (optionsMax pkt) top pkt _ hstart
      (by omega) (optionsMax pkt - (Scan.start pkt c.pktInfo).optionParserPtr).toNat
    rw [process_of_works hworks]
    unfold scanOptions
    generalize hscan : optionLoop c.cfg c.host c.ifName (dhcp pkt) (optionsMax pkt)
      (optionsMax pkt - (Scan.start pkt c.pktInfo).optionParserPtr).toNat
      (Scan.start pkt c.pktInfo) = step at hloop ⊢
    cases step with
    | ret result s => exact hloop a (by omega)
    | next s =>
      obtain ⟨hfront, hinfo⟩ := hbehind.loop (by unfold opOff optionsStart; omega) hscan
      have hop : s.pkt (dhcp pkt + opOff) = pkt (dhcp pkt + opOff) :=
        hfront.front _ (by unfold opOff optionsStart; omega)
      have hsp := hfront.sp
      have hsp' := hloop.sp
      have hlow : dhcp pkt + minbootplen ≤ a := by
        unfold minbootplen
        omega
      obtain ⟨hwrites, hfrom, hto⟩ := @addAgentOption_bounds c (dhcp pkt) _ _ _ _ hloop hfront
      simp only [finishOption82]
      split
      · exact hloop.above a (by omega)
      split
      · split <;> exact hloop.above a (by omega)
      show updateLengths (dhcp pkt) _ _ a = pkt a
      split
      · rename_i hrequest
        obtain ⟨n, hn⟩ : ∃ n : ℕ, (addAgentOption c.host c.ifIndex c.ifName c.bootpGw c.cfg.rId
            (dhcp pkt) s).2 = dhcp pkt + n :=
          ⟨((addAgentOption c.host c.ifIndex c.ifName c.bootpGw c.cfg.rId (dhcp pkt) s).2
            - dhcp pkt).toNat, by unfold optionsStart at hfrom; omega⟩
        rw [updateLengths_above hn (by omega) _ hlow]
        exact hwrites (hinfo (by rw [← hop]; exact hrequest)) a ha
      · obtain ⟨n, hn⟩ : ∃ n : ℕ, s.sp = dhcp pkt + n :=
          ⟨(s.sp - dhcp pkt).toNat, by unfold optionsStart at hsp; omega⟩
        rw [updateLengths_above hn (by omega) _ hlow]
        exact hloop.above a (by omega)
  · rw [(process_of_not_works hworks).2]

/-! ## Received requests -/

/-- A request that leaves 256 bytes to spare is processed inside the buffer. -/
theorem staysInBuffer_of_spare {c : Option82Call} {pkt : Packet} {items : List DhcpItem}
    {tail : List UInt8} (h : ReceivedRequest pkt items tail)
    (hspare : ntohs pkt ipLenOff + 256 + c.reach ≤ recvBufferSize) : StaysInBuffer c pkt := by
  intro pkt' hagree a ha
  obtain ⟨hreq, hdhcp, -, -⟩ := @ReceivedRequest.of_agree c _ _ _ _ h hagree
  have hlen := h.request.length
  have hlen' := hreq.length
  have hip := h.ipLen
  have hdhcp0 : dhcp pkt = udph pkt + udphdrLength := rfl
  have hudph : udph pkt = (ipHl pkt * 4 : ℕ) := rfl
  unfold dhcpPktlen at hlen
  apply process_above_any
  · omega
  · rw [hlen', hdhcp]
    omega

/-- If the moves keep the length octets, a request is processed inside the buffer exactly if no
option is added to it that reaches over the end; and 256 bytes to spare are always enough. -/
theorem staysInBuffer_iff {c : Option82Call} {pkt : Packet} {items : List DhcpItem}
    {tail : List UInt8} (h : ReceivedRequest pkt items tail) :
    (LengthsKept 0 false items → (StaysInBuffer c pkt ↔ ¬ (AddsOption c pkt items tail ∧
      (recvBufferSize : ℤ) < dhcp pkt + optionsStart + optionOffset items tail + c.reach))) ∧
    (ntohs pkt ipLenOff + 256 + c.reach ≤ recvBufferSize → StaysInBuffer c pkt) := by
  refine ⟨fun hlengths => ⟨fun hstays hboth => ?_, fun hnot => ?_⟩, staysInBuffer_of_spare h⟩
  · exact not_staysInBuffer h hlengths hboth.1 hboth.2 hstays
  · apply staysInBuffer_of_fits h hlengths
    intro hadds
    exact not_lt.mp fun hover => hnot ⟨hadds, hover⟩

/-- A request over a plain IP header in the buffer. -/
theorem receivedRequest_sized {gi : List UInt8} {items : List DhcpItem} (hgi : gi.length = 4)
    (hsize : 20 + udphdrLength + optionsStart + (Tlv.encode items ++ [endTag]).length
      ≤ recvBufferSize - 1) :
    ReceivedRequest (sizedRequest gi (Tlv.encode items ++ [endTag])) items [endTag] := by
  have hlt : recvBufferSize - 1 < 2 ^ 16 := by decide
  obtain ⟨hulen, hop, -, hoptions⟩ := sizedRequest_fields hgi
    (show optionsStart + (Tlv.encode items ++ [endTag]).length + udphdrLength < 2 ^ 16 by omega)
  obtain ⟨hip, hagree⟩ := ipLen_sizedRequest hgi
    (show 20 + udphdrLength + optionsStart + (Tlv.encode items ++ [endTag]).length < 2 ^ 16 by
      omega)
  refine ⟨⟨hop, hulen, hoptions, fun b hb => (Option.some.inj hb).symm⟩, hagree, ?_⟩
  rw [hip]
  exact hsize

theorem limitRequest_received : ReceivedRequest limitRequest limitItems [endTag] :=
  receivedRequest_sized rfl (by decide +kernel)

theorem staysInBuffer_iff_limitRequest : StaysInBuffer replaceCall limitRequest := by
  apply ((staysInBuffer_iff limitRequest_received).1
    (lengthsKept_of_no_agent limitItems_noAgent false)).mpr
  intro hboth
  have hover := hboth.2
  have hdhcp : dhcp limitRequest = 28 := dhcp_sizedRequest
  rw [hdhcp] at hover
  revert hover
  decide +kernel

/-! ## A request that fills the buffer -/

/-- A message type and padding. -/
def longItems (n : ℕ) : List DhcpItem :=
  (.opt discoverOption :: List.replicate n .pad) ++ [.pad] ++ [.pad]

theorem longItems_options (n : ℕ) : Tlv.options (longItems n) = [discoverOption] := by
  unfold longItems
  rw [Tlv.options_append, Tlv.options_append, Tlv.options_opt, Tlv.options_replicate_pad]
  rfl

theorem longItems_noAgent (n : ℕ) : ∀ o ∈ Tlv.options (longItems n), o.tag ≠ dhcpAgentOptions := by
  rw [longItems_options]
  decide

theorem longItems_strip (n : ℕ) : strip false (longItems n) = longItems n :=
  strip_of_no_agent (longItems_noAgent n) false

theorem longItems_length (n : ℕ) : (Tlv.encode (longItems n)).length = n + 5 := by
  unfold longItems
  rw [Tlv.encode_append, Tlv.encode_append, Tlv.encode_opt, Tlv.encode_replicate_pad,
    List.length_append, List.length_append, List.length_append, List.length_replicate,
    Tlv.Opt.length_encode]
  show discoverOption.size + n + 1 + 1 = n + 5
  unfold Tlv.Opt.size discoverOption
  rw [List.length_singleton]
  omega

/-- The new option starts at the last pad. -/
theorem longItems_offset (n : ℕ) : appendOffset (longItems n) = n + 4 ∧
    optionOffset (longItems n) [endTag] = n + 4 := by
  have hlast : (longItems n).getLast? = some .pad := List.getLast?_concat
  have happend : appendOffset (longItems n) = n + 4 := by
    rw [appendOffset, if_pos hlast, longItems_strip, longItems_length]
    omega
  have hends : ¬ EndsInEndByte (longItems n) := by
    unfold longItems
    rw [endsInEndByte_concat_pad, strip_concat_pad, Tlv.encode_append,
      show Tlv.encode [Tlv.Item.pad] = [dhcpFormat.pad] from rfl, List.getLast?_concat]
    decide
  refine ⟨happend, ?_⟩
  rw [(optionOffset_end (longItems n) []).1 hlast hends, happend]

def longRequest : Packet := sizedRequest [0, 0, 0, 0] (Tlv.encode (longItems 8950) ++ [endTag])

/-- The request has 9224 bytes, and END of the new option is byte 9236 of the buffer. -/
theorem longRequest_leaves_buffer :
    ¬ ∀ (c : Option82Call) (pkt : Packet) (items : List DhcpItem) (tail : List UInt8),
      ReceivedRequest pkt items tail → StaysInBuffer c pkt := by
  intro h
  have hlen : (Tlv.encode (longItems 8950) ++ [endTag]).length = 8956 := by
    rw [List.length_append, longItems_length, List.length_singleton]
  have hreceived : ReceivedRequest longRequest (longItems 8950) [endTag] := by
    apply receivedRequest_sized rfl
    rw [hlen]
    decide
  obtain ⟨-, -, hcookie, -⟩ := @sizedRequest_fields [0, 0, 0, 0] _ rfl
    (show optionsStart + (Tlv.encode (longItems 8950) ++ [endTag]).length + udphdrLength
      < 2 ^ 16 by rw [hlen]; decide)
  have hsize : maxMsgSizeAfter 0 (Tlv.options (longItems 8950)) = 0 := by
    rw [longItems_options]
    decide
  have hadds : AddsOption replaceCall longRequest (longItems 8950) [endTag] := by
    refine ⟨⟨rfl, hcookie⟩, ⟨?_, fun hne => absurd (longItems_strip 8950) hne⟩,
      ⟨discoverOption, ?_, rfl⟩, ?_⟩
    · rw [longItems_options]
      decide
    · rw [longItems_options]
      exact List.mem_singleton_self _
    · rw [roomAt_end]
      unfold RoomFor
      rw [(longItems_offset 8950).1, hsize]
      decide
  have hover : (recvBufferSize : ℤ) < dhcp longRequest + optionsStart
      + optionOffset (longItems 8950) [endTag] + replaceCall.reach := by
    have hdhcp : dhcp longRequest = 28 := dhcp_sizedRequest
    rw [hdhcp, (longItems_offset 8950).2]
    decide
  exact not_staysInBuffer hreceived
    (lengthsKept_of_no_agent (longItems_noAgent 8950) false) hadds hover
    (h replaceCall longRequest (longItems 8950) [endTag] hreceived)

end Udpfwd
end IpApps
