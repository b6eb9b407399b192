import IpApps.Lib.Tlv
import IpApps.Udpfwd.Host
import IpApps.Udpfwd.Packet

/-!
# The DHCP options of a packet

The functions of `dhcp_options.c`: the search for an option, the check of a relay agent
option and `process_dhcp_relay_option82_message`. The latter is cut at the source's own
seams: one round of its option loop (`optionStep`), the loop, the new option at the end
and the length fields. Pointers are addresses of the packet, NULL is `none`.
-/

namespace IpApps
namespace Udpfwd

open Memory Endian

/-! ## Constants -/

def pad : UInt8 := 0
def optOverload : UInt8 := 52
def dhcpMsgtype : UInt8 := 53
def dhcpMaxmsgsize : UInt8 := 57
def dhcpAgentOptions : UInt8 := 82
def endTag : UInt8 := 255

/-- The option format of DHCP: `PAD` and `END` stand alone. -/
def dhcpFormat : Tlv.Format where
  pad := pad
  stop := endTag
  pad_ne_stop := by decide

theorem dhcpMsgtype_ne_pad : dhcpMsgtype ≠ dhcpFormat.pad := by decide

theorem dhcpMsgtype_ne_stop : dhcpMsgtype ≠ dhcpFormat.stop := by decide

theorem dhcpAgentOptions_ne_pad : dhcpAgentOptions ≠ dhcpFormat.pad := by decide

theorem dhcpAgentOptions_ne_stop : dhcpAgentOptions ≠ dhcpFormat.stop := by decide

/-- `RFC1048_MAGIC`. -/
def dhcpCookie : List UInt8 := [99, 130, 83, 99]

/-- `MAGIC_LEN`. -/
def magicLen : ℕ := 4

/-- Where the options start in the message, behind the cookie. -/
def optionsStart : ℕ := 240

/-- `MINBOOTPLEN`: the fixed fields, the cookie and an end marker. -/
def minbootplen : ℕ := 548 - 312 + 5

/-- `MAX_DHCP_MESSAGE_SIZE`. -/
def maxDhcpMessageSize : ℕ := 576

/-- `RECV_BUFFER_SIZE`. -/
def recvBufferSize : ℕ := 9228

/-- `MAC_HEADER_LENGTH`. -/
def macHeaderLength : ℕ := 6

/-- `DHCP_OPTION_HEADER_LENGTH`. -/
def dhcpOptionHeaderLength : ℕ := 2

def dhcpRaiCircuitId : UInt8 := 1
def dhcpRaiRemoteId : UInt8 := 2

/-! ## Searching an option -/

/-- `DHCPOPTLEN`: the length octet, read as a `char`, which is signed on the host. -/
def dhcpoptlen (pkt : Packet) (opt : ℤ) : ℤ :=
  let b := (pkt (opt + 1)).toNat
  if b < 128 then b else b - 256

/-- `dhcpScanOpt`, with the number of rounds its loop may take: the option found, if
any, and the overload value; `none` while the loop still runs. -/
def dhcpScanOpt (pkt : Packet) (optend : ℤ) (tag : UInt8) :
    ℕ → ℤ → UInt8 → Option (Option ℤ × UInt8)
  | 0, _, _ => none
  | rounds + 1, opt, ovldOpt =>
    if ¬ opt < optend then some (none, ovldOpt)
    else if pkt opt = tag then some (some opt, ovldOpt)
    else if pkt opt = endTag then some (none, ovldOpt)
    else if pkt opt = pad then dhcpScanOpt pkt optend tag rounds (opt + 1) ovldOpt
    else
      dhcpScanOpt pkt optend tag rounds (opt + 2 + dhcpoptlen pkt opt)
        (if pkt opt = optOverload then pkt (opt + 2) else ovldOpt)

/-- `dhcpPickupOpt` on the message at `dhcp`; the file field is searched for overload
values 1 and 3, the sname field for 2. -/
def dhcpPickupOpt (rounds : ℕ) (pkt : Packet) (dhcp len : ℤ) (tag : UInt8) :
    Option (Option ℤ) :=
  match dhcpScanOpt pkt (dhcp + len) tag rounds (dhcp + optionsOff + magicLen) 0 with
  | none => none
  | some (retval, overload) =>
    if retval ≠ none ∧ overload = 0 then some retval
    else if overload = 1 ∨ overload = 3 then
      (dhcpScanOpt pkt (dhcp + fileOff + 128) tag rounds (dhcp + fileOff) 0).map (·.1)
    else if overload = 2 then
      (dhcpScanOpt pkt (dhcp + snameOff + 64) tag rounds (dhcp + snameOff) 0).map (·.1)
    else some none

/-! ## The relay agent option -/

/-- `DHCP_OPTION_82_OPTIONS`. -/
structure Option82Options where
  circuitId : UInt32
  ipAddr : IpAddress
  deriving DecidableEq, Repr

/-- `dhcp_relay_get_option82_len`: the header, the circuit id and the remote id. -/
def dhcpRelayGetOption82Len (remoteId : RemoteId) : ℕ :=
  let length := dhcpOptionHeaderLength + (dhcpOptionHeaderLength + 4)
  match remoteId with
  | .mac => length + (dhcpOptionHeaderLength + macHeaderLength)
  | .ip => length + (dhcpOptionHeaderLength + 4)

/-- What `dhcp_relay_validate_agent_option` returns. -/
inductive AgentOptionStatus
  /-- `DHCP_RELAY_INVALID_OPTION_82`. -/
  | invalid
  /-- `DHCP_RELAY_OPTION_82_MISMATCH`. -/
  | mismatch
  /-- `DHCP_RELAY_OPTION_82_OK`. -/
  | ok
  deriving DecidableEq, Repr

/-- The local variables of `dhcp_relay_validate_agent_option` its loop fills. -/
structure Suboptions where
  circuitIdLen : ℕ := 0
  circuitIdPtr : Option ℤ := none
  remoteIdLen : ℕ := 0
  remoteIdPtr : Option ℤ := none

/-- The loop over the suboptions, `none` where it returns that the option is invalid.
Every round advances by at least two bytes. -/
def suboptionLoop (pkt : Packet) (buf buflen : ℤ) : ℕ → ℤ → Suboptions → Option Suboptions
  | 0, _, s => some s
  | rounds + 1, iter, s =>
    if ¬ iter < buflen - 1 then some s
    else
      let opttype := pkt (buf + iter)
      let optlen := (pkt (buf + (iter + 1))).toNat
      let optvalue := buf + (iter + 2)
      let iter := iter + 2 + optlen
      if buflen < iter then none
      else if opttype = dhcpRaiCircuitId then
        suboptionLoop pkt buf buflen rounds iter
          { s with circuitIdLen := optlen, circuitIdPtr := some optvalue }
      else if opttype = dhcpRaiRemoteId then
        suboptionLoop pkt buf buflen rounds iter
          { s with remoteIdLen := optlen, remoteIdPtr := some optvalue }
      else none

/-- The address `getMacfromIfname` leaves in a local array of six bytes. -/
def localMac (host : Host) (ifName : CString) : List UInt8 :=
  let mac := host.getMacfromIfname ifName
  (mac ++ host.unsetMac.toList.drop mac.length).take macHeaderLength

/-- `dhcp_relay_validate_agent_option`. -/
def dhcpRelayValidateAgentOption (host : Host) (pkt : Packet) (buf buflen : ℤ)
    (ifName : CString) (pktInfo : Option82Options) (remoteId : RemoteId) :
    AgentOptionStatus × Option82Options :=
  match suboptionLoop pkt buf buflen (buflen.toNat + 1) 0 {} with
  | none => (.invalid, pktInfo)
  | some s =>
    match s.circuitIdPtr, s.remoteIdPtr with
    | some circuitIdPtr, some remoteIdPtr =>
      if s.circuitIdLen ≠ 4 then (.invalid, pktInfo)
      else
        let circuitId := UInt32.ofNat (beVal (slice pkt circuitIdPtr 4))
        match remoteId with
        | .mac =>
          if s.remoteIdLen ≠ macHeaderLength then (.mismatch, pktInfo)
          else if slice pkt remoteIdPtr macHeaderLength ≠ localMac host ifName then
            (.mismatch, pktInfo)
          else (.ok, { pktInfo with circuitId })
        | .ip =>
          if s.remoteIdLen ≠ 4 then (.mismatch, pktInfo)
          else if ¬ host.ipExistsOnInterface ifName (ipAt pkt remoteIdPtr) then
            (.mismatch, pktInfo)
          else (.ok, { circuitId, ipAddr := ipAt pkt remoteIdPtr })
    | _, _ => (.mismatch, pktInfo)

/-! ## The option loop -/

/-- `OPTION82_RESULT_t`. -/
inductive Option82Result
  | valid
  | dropped
  | noop
  deriving DecidableEq, Repr

/-- The packet and the local variables of `process_dhcp_relay_option82_message`. -/
structure Scan where
  pkt : Packet
  pktInfo : Option82Options
  optionParserPtr : ℤ
  sp : ℤ
  endPad : Option ℤ := none
  isDhcp : Bool := false
  maxMsgSize : ℕ := 0
  goodAgentOption : Bool := false

/-- How a round ends: the loop goes on, or the function returns. -/
inductive ScanStep
  | next (s : Scan)
  | ret (result : Option82Result) (s : Scan)

/-- The end of a round for an option that stays in the packet. The length octet is read
again after the move. -/
def Scan.keepOption (s : Scan) : Scan :=
  let pkt :=
    if s.sp ≠ s.optionParserPtr then
      memmove s.pkt s.sp s.optionParserPtr
        ((s.pkt (s.optionParserPtr + 1)).toNat + dhcpOptionHeaderLength)
    else s.pkt
  let len := (pkt (s.optionParserPtr + 1)).toNat + dhcpOptionHeaderLength
  { s with pkt := pkt, endPad := none, sp := s.sp + len
           optionParserPtr := s.optionParserPtr + len }

/-- Skips the option without copying it. -/
def Scan.skipOption (s : Scan) : Scan :=
  { s with optionParserPtr := s.optionParserPtr + (s.pkt (s.optionParserPtr + 1)).toNat
      + dhcpOptionHeaderLength }

section scan

variable (cfg : FeatureConfig) (host : Host) (ifName : CString) (dhcp max : ℤ)

/-- The case of a relay agent option after the message type. -/
def agentOptionStep (s : Scan) : ScanStep :=
  if ipAt s.pkt (dhcp + giaddrOff) = 0 then .ret .dropped s
  else
    let s := { s with endPad := none }
    if s.pkt (dhcp + opOff) = bootreply then
      let (status, pktInfo) := dhcpRelayValidateAgentOption host s.pkt (s.optionParserPtr + 2)
        (s.pkt (s.optionParserPtr + 1)).toNat ifName s.pktInfo cfg.rId
      let s := { s with pktInfo }
      match status with
      | .invalid => .ret .dropped s
      | .mismatch => .next s.skipOption
      | .ok => .next { s with goodAgentOption := true }.skipOption
    else if s.pkt (dhcp + opOff) = bootrequest then
      match cfg.policy with
      | .keep => .ret .valid s
      | .drop => .ret .dropped s
      | .replace => .next s.skipOption
    else .next s.keepOption

/-- One round of the option loop. -/
def optionStep (s : Scan) : ScanStep :=
  let tag := s.pkt s.optionParserPtr
  if tag = pad then
    .next { s with pkt := store s.pkt s.sp [tag], endPad := some s.sp, sp := s.sp + 1
                   optionParserPtr := s.optionParserPtr + 1 }
  else if tag = dhcpMsgtype then .next { s with isDhcp := true }.keepOption
  else if tag = dhcpMaxmsgsize then
    if s.pkt (dhcp + opOff) = bootrequest then
      if s.pkt (s.optionParserPtr + 1) = 2 then
        let maxMsgSize := ntohs s.pkt (s.optionParserPtr + 2)
        .next { s with maxMsgSize := if maxMsgSize < maxDhcpMessageSize then 0
                                     else maxMsgSize }.keepOption
      else .ret .dropped s
    else .next s.keepOption
  else if tag = endTag then
    .next { s with pkt := if s.sp ≠ s.optionParserPtr then store s.pkt s.sp [tag] else s.pkt
                   sp := s.sp + 1, optionParserPtr := max }
  else if tag = dhcpAgentOptions then
    if ¬ s.isDhcp then .next s.keepOption else agentOptionStep cfg host ifName dhcp s
  else .next s.keepOption

/-- The option loop. A round advances the parser pointer, so as many rounds as there are
bytes before `max` are enough. -/
def optionLoop : ℕ → Scan → ScanStep
  | 0, s => .next s
  | rounds + 1, s =>
    if s.optionParserPtr < max then
      match optionStep cfg host ifName dhcp max s with
      | .next s => optionLoop rounds s
      | .ret result s => .ret result s
    else .next s

end scan

/-! ## The new option and the lengths -/

/-- Where the new option would go: at the last pad byte, if padding ended the options. -/
def Scan.appendPtr (s : Scan) : ℤ := s.endPad.getD s.sp

/-- Whether there is room for the new option, `opt82`. The lengths are `uint32_t`. -/
def Scan.hasRoom (s : Scan) (dhcp : ℤ) (remoteId : RemoteId) : Bool :=
  let length : ℤ := (s.appendPtr - dhcp) % 2 ^ 32
  let packlen : ℤ := (length + dhcpRelayGetOption82Len remoteId) % 2 ^ 32
  packlen < recvBufferSize ∧ (s.maxMsgSize ≠ 0 → packlen ≤ s.maxMsgSize)

/-- Where the new option goes if there is room: over the END option, if one is in front
of the pointer. -/
def Scan.optionPtr (s : Scan) : ℤ :=
  if s.pkt (s.appendPtr - 1) = endTag then s.appendPtr - 1 else s.appendPtr

/-- The bytes of the new option in front of the remote id. -/
def agentOptionHead (ifIndex : UInt32) (remoteId : RemoteId) (remoteIdLen : ℕ) : List UInt8 :=
  [dhcpAgentOptions, UInt8.ofNat (dhcpRelayGetOption82Len remoteId - dhcpOptionHeaderLength),
    dhcpRaiCircuitId, 4] ++ beBytes 4 ifIndex.toNat
    ++ [dhcpRaiRemoteId, UInt8.ofNat remoteIdLen]

/-- Writes the new option and END from `sp` on; the packet and the pointer after it. -/
def writeAgentOption (host : Host) (ifIndex : UInt32) (ifName : CString) (bootpGw : IpAddress)
    (remoteId : RemoteId) (pktInfo : Option82Options) (pkt : Packet) (sp : ℤ) : Packet × ℤ :=
  match remoteId with
  | .mac =>
    let pkt := store pkt sp (agentOptionHead ifIndex remoteId macHeaderLength)
    let sp := sp + 10
    let pkt := store pkt sp (host.getMacfromIfname ifName)
    let sp := sp + macHeaderLength
    (store pkt sp [endTag], sp + 1)
  | .ip =>
    let pkt := store pkt sp (agentOptionHead ifIndex remoteId 4)
    let sp := sp + 10
    -- If a BOOTP gateway is configured, use that address
    let addr := if bootpGw ≠ 0 then bootpGw else pktInfo.ipAddr
    let pkt := store pkt sp (ipBytes addr)
    let sp := sp + 4
    (store pkt sp [endTag], sp + 1)

/-- The part of the function after the option loop that adds the option to a request. -/
def addAgentOption (host : Host) (ifIndex : UInt32) (ifName : CString) (bootpGw : IpAddress)
    (remoteId : RemoteId) (dhcp : ℤ) (s : Scan) : Packet × ℤ :=
  if s.hasRoom dhcp remoteId then
    writeAgentOption host ifIndex ifName bootpGw remoteId s.pktInfo s.pkt s.optionPtr
  else (s.pkt, s.appendPtr)

/-- The last part of the function: padding to the minimal length, and the lengths of the
UDP and the IP header. -/
def updateLengths (dhcp : ℤ) (pkt : Packet) (sp : ℤ) : Packet :=
  let length := ((sp - dhcp) % 2 ^ 32).toNat
  let pkt := if length < minbootplen then memset pkt sp 0 (minbootplen - length) else pkt
  let length := if length < minbootplen then minbootplen else length
  let udph := dhcp - udphdrLength
  let pkt := store pkt (udph + uhUlenOff) (htonsBytes (length + udphdrLength))
  let pkt := store pkt (udph + uhSumOff) [0, 0]
  let pkt := store pkt ipLenOff (htonsBytes (length + udphdrLength + ipHl pkt * 4))
  store pkt ipSumOff [0, 0]

/-! ## The function -/

/-- What `process_dhcp_relay_option82_message` returns and leaves behind. -/
structure Option82Outcome where
  result : Option82Result
  pkt : Packet
  pktInfo : Option82Options

/-- The scan before the first round. -/
def Scan.start (pkt : Packet) (pktInfo : Option82Options) : Scan where
  pkt := pkt
  pktInfo := pktInfo
  optionParserPtr := dhcp pkt + optionsOff + magicLen
  sp := dhcp pkt + optionsOff + magicLen

/-- `max`: the end of the message by its UDP length, a `uint32_t`. -/
def optionsMax (pkt : Packet) : ℤ := dhcp pkt + dhcpPktlen pkt % 2 ^ 32

/-- The option loop on a packet. -/
def scanOptions (cfg : FeatureConfig) (host : Host) (ifName : CString) (pkt : Packet)
    (pktInfo : Option82Options) : ScanStep :=
  let s := Scan.start pkt pktInfo
  optionLoop cfg host ifName (dhcp pkt) (optionsMax pkt)
    (optionsMax pkt - s.optionParserPtr).toNat s

/-- The function after its option loop. -/
def finishOption82 (cfg : FeatureConfig) (host : Host) (ifIndex : UInt32) (ifName : CString)
    (bootpGw : IpAddress) (dhcp : ℤ) (s : Scan) : Option82Outcome :=
  -- If it's not a DHCP packet, we don't modify it
  if ¬ s.isDhcp then ⟨.noop, s.pkt, s.pktInfo⟩
  else if s.pkt (dhcp + opOff) = bootreply then
    if ¬ s.goodAgentOption ∧ cfg.enabled .dhcpRelayOption82Validate then
      ⟨.dropped, s.pkt, s.pktInfo⟩
    else ⟨.valid, s.pkt, s.pktInfo⟩
  else
    let (pkt, sp) :=
      if s.pkt (dhcp + opOff) = bootrequest then
        addAgentOption host ifIndex ifName bootpGw cfg.rId dhcp s
      else (s.pkt, s.sp)
    ⟨.valid, updateLengths dhcp pkt sp, s.pktInfo⟩

/-- `process_dhcp_relay_option82_message`. -/
def processDhcpRelayOption82Message (cfg : FeatureConfig) (host : Host) (pkt : Packet)
    (pktInfo : Option82Options) (ifIndex : UInt32) (ifName : CString) (bootpGw : IpAddress) :
    Option82Outcome :=
  if ¬ cfg.enabled .dhcpRelayOption82 then ⟨.noop, pkt, pktInfo⟩
  -- If there's no cookie, it's a bootp packet and we forward it unchanged
  else if slice pkt (dhcp pkt + optionsOff) magicLen ≠ dhcpCookie then ⟨.noop, pkt, pktInfo⟩
  else
    match scanOptions cfg host ifName pkt pktInfo with
    | .ret result s => ⟨result, s.pkt, s.pktInfo⟩
    | .next s => finishOption82 cfg host ifIndex ifName bootpGw (dhcp pkt) s

/-- A request over a plain IP header, with zeros where nothing else is said. -/
def requestPacket (giaddr options : List UInt8) : Packet := fun a =>
  (0x45 :: List.replicate 23 0 ++ htonsBytes (udphdrLength + optionsStart + options.length)
    ++ [0, 0, bootrequest] ++ List.replicate 23 0 ++ giaddr ++ List.replicate 208 0 ++ dhcpCookie
    ++ options)[a.toNat]?.getD 0

end Udpfwd
end IpApps
