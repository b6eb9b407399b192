import IpApps.Udpfwd.DhcpOptions
import IpApps.Udpfwd.State

/-!
# Relaying a received packet

The functions of `udpfwd_xmit.c` and `udpfwd_ctrl` of `udpfwd_recv.c`. A packet is
processed in place: every function takes and returns what is left of it together with the
daemon's state and the system calls made so far. The `sendmsg` calls are recorded whether
they succeed or not. The daemon's lock is left out, as one packet holds it throughout.
-/

namespace IpApps
namespace Udpfwd

open Memory Endian

/-- `struct in_pktinfo`. -/
structure InPktinfo where
  ipiIfindex : UInt32
  ipiSpecDst : IpAddress
  ipiAddr : IpAddress
  deriving DecidableEq, Repr

/-- What is handed to `sendmsg`: the bytes, the destination and the packet info. -/
structure Datagram where
  bytes : List UInt8
  sinAddr : IpAddress
  sinPort : UInt16
  pktInfo : InPktinfo
  deriving DecidableEq, Repr

/-- What is handed to `ioctl (SIOCSARP)`: the bytes of the device, the protocol address, the
hardware type and the bytes copied to the hardware address. -/
structure ArpReq where
  arpDev : List UInt8
  arpPa : IpAddress
  haFamily : UInt8
  haData : List UInt8
  deriving DecidableEq, Repr

/-- A packet on its way through the daemon. -/
structure Relay where
  pkt : Packet
  pktInfo : InPktinfo
  state : State
  sent : List Datagram := []
  arpReqs : List ArpReq := []

/-- `UDPFWD_DHCP_MAX_HOPS`. -/
def udpfwdDhcpMaxHops : UInt8 := 16

/-- `UDPFWD_DHCP_BROADCAST_FLAG`. -/
def udpfwdDhcpBroadcastFlag : ℕ := 0x8000

/-- `IP_ADDRESS_BCAST`. -/
def ipAddressBcast : IpAddress := 0xffffffff

/-- `DHCPACK` and `DHCPNAK`. -/
def dhcpack : UInt8 := 5
def dhcpnak : UInt8 := 6

/-- The bytes of the local `arp_req` from its hardware address to its end. -/
def arpReqRoom : ℕ := 50

/-- Where `arp_dev` stands, from the hardware address on. -/
def arpDevOff : ℕ := 34

/-- The ARP request for a reply: `arp_dev` is set first, and a hardware address that is copied over
the flags and the netmask runs into it. -/
def arpRequest (ifName : CString) (arpPa : IpAddress) (haFamily : UInt8) (haData : List UInt8) :
    ArpReq :=
  let name := ifName.map fun c => UInt8.ofNat c.toNat
  let arpDev := (name ++ List.replicate ifNamesize 0).take ifNamesize
  { arpDev := haData.drop arpDevOff ++ arpDev.drop (haData.length - arpDevOff)
    arpPa, haFamily, haData }

/-- Changes the counters of an interface node, as the `INC_UDPF_DHCPR` macros do. -/
def State.count (s : State) (p : NodePtr) (f : DhcpRelayPktCounter → DhcpRelayPktCounter) :
    Except Fault State := do
  let n ← s.node p
  return s.setNode p { n with dhcpRelayPktCounters := f n.dhcpRelayPktCounters }

namespace Relay

/-! ## Sending -/

/-- The packet as `udpfwd_send_pkt_through_socket` leaves it: the destination address and
port, the IP checksum over as many bytes as the raw `ip_len` says, no UDP checksum. -/
def addressed (pkt : Packet) (sinAddr : IpAddress) (sinPort : UInt16) : Packet :=
  let udph := udph pkt
  let pkt := store pkt ipDstOff (ipBytes sinAddr)
  let pkt := store pkt (udph + uhDportOff) (htonsBytes sinPort.toNat)
  let pkt := store pkt ipSumOff (rawBytes (inCksum pkt 0 (rawU16 pkt ipLenOff) 0))
  store pkt (udph + uhSumOff) [0, 0]

/-- `udpfwd_send_pkt_through_socket`. -/
def sendPktThroughSocket (host : Host) (r : Relay) (size : ℕ) (sinAddr : IpAddress)
    (sinPort : UInt16) : Bool × Relay :=
  let pkt := addressed r.pkt sinAddr sinPort
  (host.sendmsg r.sent.length,
    { r with pkt, sent := r.sent ++ [⟨slice pkt 0 size, sinAddr, sinPort, r.pktInfo⟩] })

/-! ## The UDP broadcast forwarder -/

/-- A round of the loop of `udpfwd_forward_packet` over the server array. -/
def forwardToServer (host : Host) (udpDport : UInt16) (size : ℕ) (interfaceIp : IpAddress)
    (p : NodePtr) (r : Relay) (iter : ℕ) : Except Fault Relay := do
  let n ← r.state.node p
  let server ← r.state.slotServer n iter
  if server.udpPort ≠ udpDport then return r
  let pktInfo :=
    if r.pktInfo.ipiAddr = 0 then { r.pktInfo with ipiSpecDst := interfaceIp } else r.pktInfo
  let pktInfo := { pktInfo with ipiIfindex := 0 }
  return (sendPktThroughSocket host { r with pktInfo } size server.ipAddress udpDport).2

/-- `udpfwd_forward_packet`. -/
def forwardPacket (host : Host) (udpDport : UInt16) (size : ℕ) (r : Relay) :
    Except Fault Relay :=
  let ifIndex := r.pktInfo.ipiIfindex
  if ifIndex = Host.noIfIndex then .ok r
  else
    match host.ifIndextoname ifIndex with
    | none => .ok r
    | some ifName =>
      let interfaceIp := host.getLowestIpOnInterface ifName
      if interfaceIp = 0 then .ok r
      else
        match r.state.shashFind ifName with
        | none => .ok r
        | some p => do
          let intfNode ← r.state.node p
          (List.range intfNode.addrCount).foldlM
            (forwardToServer host udpDport size interfaceIp p) r

/-! ## Requests -/

/-- The port correction: a source port of 68, compared and set without `ntohs`. -/
def correctPort (pkt : Packet) : Packet :=
  let uhSport := udph pkt + uhSportOff
  if rawU16 pkt uhSport = dhcpcPort.toNat then store pkt uhSport (rawBytes dhcpsPort.toNat)
  else pkt

/-- Increments a byte of the packet by `d`. -/
def addToByte (pkt : Packet) (a : ℤ) (d : UInt8) : Packet := store pkt a [pkt a + d]

/-- The agent address of a request: only an unset one is changed, to the gateway if the
interface has that address. -/
def stampGiaddr (host : Host) (ifName : CString) (bootpGw interfaceIp : IpAddress)
    (dhcp : ℤ) (pkt : Packet) : Packet :=
  if ipAt pkt (dhcp + giaddrOff) = 0 then
    store pkt (dhcp + giaddrOff) (ipBytes
      (if bootpGw ≠ 0 ∧ host.ipExistsOnInterface ifName bootpGw then bootpGw else interfaceIp))
  else pkt

/-- A round of the loop of `udpfwd_relay_to_dhcp_server` over the server array. -/
def relayToServer (host : Host) (size : ℕ) (interfaceIp : IpAddress) (p : NodePtr)
    (r : Relay) (iter : ℕ) : Except Fault Relay := do
  let n ← r.state.node p
  let server ← r.state.slotServer n iter
  if server.udpPort ≠ dhcpsPort then return r
  let pkt :=
    if ipAt r.pkt ipSrcOff = 0 then store r.pkt ipSrcOff (ipBytes interfaceIp) else r.pkt
  let r := { r with pkt, pktInfo := { r.pktInfo with ipiIfindex := 0 } }
  let (sent, r) := sendPktThroughSocket host r size server.ipAddress dhcpsPort
  let state ← r.state.count p fun c =>
    if sent then { c with clientValids := c.clientValids + 1 }
    else { c with clientDrops := c.clientDrops + 1 }
  return { r with state }

/-- The part of `udpfwd_relay_to_dhcp_server` after option 82: the agent address and the
loop over the servers. -/
def relayToServers (host : Host) (ifName : CString) (interfaceIp : IpAddress) (p : NodePtr)
    (dhcp : ℤ) (r : Relay) : Except Fault Relay := do
  let intfNode ← r.state.node p
  let pkt := stampGiaddr host ifName intfNode.bootpGw interfaceIp dhcp r.pkt
  let size := ntohs pkt ipLenOff
  (List.range intfNode.addrCount).foldlM (relayToServer host size interfaceIp p)
    { r with pkt }

/-- The request as option 82 processing finds it: one more hop if that is configured, and
one less second to live. -/
def countHop (cfg : FeatureConfig) (pkt : Packet) : Packet :=
  let pkt' :=
    if cfg.enabled .dhcpRelayHopCountIncrement then addToByte pkt (dhcp pkt + hopsOff) 1
    else pkt
  addToByte pkt' ipTtlOff (-1)

/-- The part of `udpfwd_relay_to_dhcp_server` that needs the interface node. -/
def relayRequest (cfg : FeatureConfig) (host : Host) (ifIndex : UInt32) (ifName : CString)
    (interfaceIp : IpAddress) (p : NodePtr) (r : Relay) : Except Fault Relay := do
  let dhcp := dhcp r.pkt
  let pkt := countHop cfg r.pkt
  let intfNode ← r.state.node p
  let outcome := processDhcpRelayOption82Message cfg host pkt ⟨0, interfaceIp⟩ ifIndex ifName
    intfNode.bootpGw
  let r := { r with pkt := outcome.pkt }
  match outcome.result with
  | .dropped =>
    let state ← r.state.count p fun c =>
      { c with clientDropsWithOption82 := c.clientDropsWithOption82 + 1 }
    return { r with state }
  | .valid =>
    let state ← r.state.count p fun c =>
      { c with clientValidsWithOption82 := c.clientValidsWithOption82 + 1 }
    relayToServers host ifName interfaceIp p dhcp { r with state }
  | .noop => relayToServers host ifName interfaceIp p dhcp r

/-- `udpfwd_relay_to_dhcp_server`. -/
def relayToDhcpServer (cfg : FeatureConfig) (host : Host) (r : Relay) : Except Fault Relay :=
  let ifIndex := r.pktInfo.ipiIfindex
  if ifIndex = Host.noIfIndex then .ok r
  else
    match host.ifIndextoname ifIndex with
    | none => .ok r
    | some ifName =>
      let interfaceIp := host.getLowestIpOnInterface ifName
      if interfaceIp = 0 then .ok r
      else if udpfwdDhcpMaxHops < r.pkt (dhcp r.pkt + hopsOff) then .ok r
      else
        let r := { r with pkt := correctPort r.pkt }
        match r.state.shashFind ifName with
        | none => .ok r
        | some p => relayRequest cfg host ifIndex ifName interfaceIp p r

/-! ## Replies -/

/-- Where a reply goes. -/
inductive ReplyDest
  /-- To 255.255.255.255: the broadcast flag is set or the message is a NAK. -/
  | broadcast
  | unicast (sinAddr : IpAddress)
  /-- Nowhere: an ACK without a client address. -/
  | nowhere

/-- The destination of a reply with the given message type, if it has one. -/
def replyDest (pkt : Packet) (dhcp : ℤ) (option : Option ℤ) : ReplyDest :=
  let isType := fun t => option.any fun opt => pkt (opt + 2) = t
  if udpfwdDhcpBroadcastFlag ≤ ntohs pkt (dhcp + flagsOff) ∨ isType dhcpnak then .broadcast
  else
    let yiaddr := ipAt pkt (dhcp + yiaddrOff)
    if isType dhcpack ∧ yiaddr = 0 then
      let ciaddr := ipAt pkt (dhcp + ciaddrOff)
      if ciaddr ≠ 0 then .unicast ciaddr else .nowhere
    else .unicast yiaddr

/-- The end of `udpfwd_relay_to_dhcp_client`: sending the reply. -/
def sendReply (host : Host) (ifIndex : UInt32) (p : NodePtr) (sinAddr : IpAddress)
    (r : Relay) : Except Fault Relay := do
  let r := { r with pktInfo := { r.pktInfo with ipiIfindex := ifIndex, ipiSpecDst := 0 } }
  let size := ntohs r.pkt ipLenOff
  let (sent, r) := sendPktThroughSocket host r size sinAddr dhcpcPort
  let state ← r.state.count p fun c =>
    if sent then { c with servValids := c.servValids + 1 }
    else { c with servDrops := c.servDrops + 1 }
  return { r with state }

/-- The part of `udpfwd_relay_to_dhcp_client` after option 82. The ARP copy takes as many
bytes as the message's `hlen` says; past the end of the local request it leaves defined
behaviour. -/
def relayToClient (rounds : ℕ) (host : Host) (ifIndex : UInt32) (ifName : CString)
    (p : NodePtr) (dhcp : ℤ) (r : Relay) : Except Fault Relay :=
  match dhcpPickupOpt rounds r.pkt dhcp (dhcpPktlen r.pkt) dhcpMsgtype with
  | none => .error .unfinished
  | some option =>
    match replyDest r.pkt dhcp option with
    | .broadcast => sendReply host ifIndex p ipAddressBcast r
    | .nowhere => do
      let state ← r.state.count p fun c => { c with servDrops := c.servDrops + 1 }
      return { r with state }
    | .unicast sinAddr =>
      let hlen := (r.pkt (dhcp + hlenOff)).toNat
      if arpReqRoom < hlen then .error .scratchBounds
      else
        let arpReq := arpRequest ifName sinAddr (r.pkt (dhcp + htypeOff))
          (slice r.pkt (dhcp + chaddrOff) hlen)
        sendReply host ifIndex p sinAddr { r with arpReqs := r.arpReqs ++ [arpReq] }

/-- `udpfwd_relay_to_dhcp_client`. -/
def relayToDhcpClient (rounds : ℕ) (cfg : FeatureConfig) (host : Host) (r : Relay) :
    Except Fault Relay :=
  let dhcp := dhcp r.pkt
  let ifIndex := host.getIfIndexfromIpAddress (giaddr r.pkt)
  if ifIndex = Host.noIfIndex then .ok r
  else
    match host.ifIndextoname ifIndex with
    | none => .ok r
    | some ifName =>
      let r := { r with pkt := addToByte r.pkt ipTtlOff (-1) }
      match r.state.shashFind ifName with
      | none => .ok r
      | some p => do
        let outcome := processDhcpRelayOption82Message cfg host r.pkt ⟨0, 0⟩ ifIndex ifName 0
        let r := { r with pkt := outcome.pkt }
        match outcome.result with
        | .dropped =>
          let state ← r.state.count p fun c =>
            { c with servDropsWithOption82 := c.servDropsWithOption82 + 1 }
          return { r with state }
        | .valid =>
          let state ← r.state.count p fun c =>
            { c with servValidsWithOption82 := c.servValidsWithOption82 + 1 }
          relayToClient rounds host ifIndex ifName p dhcp { r with state }
        | .noop => relayToClient rounds host ifIndex ifName p dhcp r

/-! ## The packet receiver -/

/-- `udpfwd_ctrl` on a packet of `size` received bytes. -/
def udpfwdCtrl (rounds : ℕ) (cfg : FeatureConfig) (host : Host) (size : ℕ) (r : Relay) :
    Except Fault Relay :=
  let dest := UInt16.ofNat (ntohs r.pkt (udph r.pkt + uhDportOff))
  if dest = dhcpsPort ∨ dest = dhcpcPort then
    if ¬ cfg.enabled .dhcpRelay then .ok r
    else if dhcpOp r.pkt = bootrequest then relayToDhcpServer cfg host r
    else if dhcpOp r.pkt = bootreply then
      if ipAt r.pkt ipDstOff ≠ ipAddressBcast then relayToDhcpClient rounds cfg host r
      else .ok r
    else .ok r
  else if ¬ cfg.enabled .udpBcastForwarder then .ok r
  else forwardPacket host dest size r

end Relay
end Udpfwd
end IpApps
