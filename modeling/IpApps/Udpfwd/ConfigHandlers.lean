import IpApps.Udpfwd.ServerCache

/-!
# Configuration handlers

The handlers of `udpfwd_config.c` for the tables `DHCP_Relay` and
`UDP_Bcast_Forwarder_Server`, and the functions of `udpfwd.c` that call them when the
database has changed. A handler collects servers in an array on its stack, which has as
many entries as an interface has slots and is filled with zeros first, and then walks the
array up to the first zero address.
-/

namespace IpApps
namespace Udpfwd

open Libc

/-! ## Rows -/

/-- The columns of a `DHCP_Relay` row. Of `other_config` only the value filed under the
bootp gateway key is read, and of `vrf` only whether it is there. -/
structure DhcpRelayRow where
  port : Option CString
  vrf : Option CString
  bootpGateway : Option CString
  ipv4UcastServer : List CString
  deriving DecidableEq, Repr

/-- Which columns of `DHCP_Relay` were modified since the last sequence number. -/
structure DhcpRelayModified where
  otherConfig : Bool
  ipv4UcastServer : Bool
  deriving DecidableEq, Repr

/-- The columns of a `UDP_Bcast_Forwarder_Server` row. The port is an `int64_t`. -/
structure UdpBcastForwarderRow where
  srcPort : Option CString
  destVrf : Option CString
  udpDport : ℤ
  ipv4UcastServer : List CString
  deriving DecidableEq, Repr

/-- A row of a table with its change flags. -/
structure IdlRow (α : Type) where
  row : α
  inserted : Bool
  modified : Bool

/-- A table with its change flags, in the order in which its rows are visited. -/
structure IdlTable (α : Type) where
  rows : List (IdlRow α)
  anyInserted : Bool
  anyDeleted : Bool
  anyModified : Bool

/-- `inet_aton` of an address string of a row, unless it fails or gives zero. -/
def serverAddress (server : CString) : Option IpAddress :=
  match inetAton server with
  | none => none
  | some id => if id = 0 then none else some id

/-- `server_ip_exists`. -/
def serverIpExists (serverIp : IpAddress) (servers : List CString) : Bool :=
  servers.any fun server => serverAddress server = some serverIp

/-! ## The array on the stack -/

/-- Write the next entry. -/
def pushServer (servers : List ServerKey) (server : ServerKey) :
    Except Fault (List ServerKey) :=
  if servers.length < maxUdpBcastServerPerInterface then .ok (servers ++ [server])
  else .error .scratchBounds

/-- Run `body` on the entries up to the first zero address, which is searched for past
the end of a full array. -/
def forEachServer (servers : List ServerKey) (body : State → ServerKey → Except Fault State)
    (s : State) : Except Fault State := do
  let filled := servers.takeWhile fun server => server.1 ≠ 0
  let s ← filled.foldlM body s
  if filled.length = maxUdpBcastServerPerInterface then throw .scratchBounds
  return s

/-- Delete the collected servers from the interface. -/
def removeServers (intfNode : NodePtr) (servers : List ServerKey) (s : State) :
    Except Fault State :=
  forEachServer servers (fun s server => do
    return (← udpfwdRemoveAddress s intfNode server.1 server.2).2) s

/-- Add the collected servers to the interface. -/
def storeServers (intfNode : NodePtr) (servers : List ServerKey) (s : State) :
    Except Fault State :=
  forEachServer servers (fun s server => do
    return (← udpfwdStoreAddress s intfNode server.1 server.2).2) s

/-- Walk the slots of an interface and collect what `pick` makes of their servers. -/
def collectServers (s : State) (n : UdpfwdInterfaceNode) (pick : ServerKey → Option ServerKey) :
    Except Fault (List ServerKey) :=
  (List.range n.addrCount).foldlM (fun servers iter => do
    match pick (← s.slotServer n iter).key with
    | some server => pushServer servers server
    | none => return servers) []

/-! ## Row deletion -/

/-- `udpfwd_handle_dhcp_relay_row_delete`, for one interface. -/
def dhcpRelayRowDeleteIntf (rows : List DhcpRelayRow) (s : State) (node : CString × NodePtr) :
    Except Fault State := do
  let found := rows.any fun rec =>
    match rec.port with
    | some name => strncmp name node.1 name.length = 0
    | none => false
  if found then return s
  let intf := node.2
  let n ← s.node intf
  let s := s.setNode intf { n with bootpGw := 0 }
  let servers ← collectServers s n fun server =>
    if server.2 = dhcpsPort then some server else none
  removeServers intf servers s

/-- `udpfwd_handle_dhcp_relay_row_delete`. -/
def udpfwdHandleDhcpRelayRowDelete (s : State) (rows : List DhcpRelayRow) :
    Except Fault State :=
  s.intfHashTable.foldlM (dhcpRelayRowDeleteIntf rows) s

/-- Whether a row keeps a forward-protocol server of the interface `portName`. A row
without a port is not skipped. -/
def udpBcastForwarderRowKeeps (portName : CString) (server : ServerKey)
    (rec : UdpBcastForwarderRow) : Bool :=
  let otherPort :=
    match rec.srcPort with
    | some name => decide (strncmp name portName name.length ≠ 0)
    | none => false
  !otherPort && !decide (rec.udpDport = dhcpsPort.toNat ∨ rec.udpDport ≠ server.2.toNat) &&
    serverIpExists server.1 rec.ipv4UcastServer

/-- `udpfwd_handle_udp_bcast_forwarder_row_delete`, for one interface. -/
def udpBcastForwarderRowDeleteIntf (rows : List UdpBcastForwarderRow) (s : State)
    (node : CString × NodePtr) : Except Fault State := do
  let intf := node.2
  let n ← s.node intf
  let servers ← collectServers s n fun server =>
    if server.2 = dhcpsPort then none
    else if rows.any (udpBcastForwarderRowKeeps n.portName server) then none
    else some server
  removeServers intf servers s

/-- `udpfwd_handle_udp_bcast_forwarder_row_delete`. -/
def udpfwdHandleUdpBcastForwarderRowDelete (s : State) (rows : List UdpBcastForwarderRow) :
    Except Fault State :=
  s.intfHashTable.foldlM (udpBcastForwarderRowDeleteIntf rows) s

/-! ## Row insertion and modification -/

/-- The interface's node, created when there is none. -/
def lookupIntferfaceNode (s : State) (portName : CString) : NodePtr × State :=
  match s.shashFind portName with
  | some intfNode => (intfNode, s)
  | none => udpfwdCreateIntferfaceNode s portName

/-- Collect the addresses of a row that no server of the interface is compared equal to. -/
def collectNewServers (s : State) (intfNode : NodePtr) (addresses : List CString)
    (listed : IpAddress → ServerKey → Bool) (udpPort : UInt16) :
    Except Fault (List ServerKey) :=
  addresses.foldlM (fun servers address => do
    match serverAddress address with
    | none => return servers
    | some id =>
      let n ← s.node intfNode
      let found ← (List.range n.addrCount).anyM fun iter => do
        return listed id (← s.slotServer n iter).key
      if found then return servers else pushServer servers (id, udpPort)) []

/-- The part that both config-change handlers share: delete the servers that are `stale`,
then add the addresses of the row that are not `listed`. -/
def replaceServers (s : State) (intfNode : NodePtr) (addresses : List CString)
    (stale : ServerKey → Option ServerKey) (listed : IpAddress → ServerKey → Bool)
    (udpPort : UInt16) : Except Fault State := do
  let servers ← collectServers s (← s.node intfNode) stale
  let s ← removeServers intfNode servers s
  let servers ← collectNewServers s intfNode addresses listed udpPort
  storeServers intfNode servers s

/-- The gateway that a change of `other_config` leaves on an interface. -/
def changedBootpGw (bootpGateway : Option CString) (bootpGw : IpAddress) : IpAddress :=
  match bootpGateway with
  | none => 0
  | some gw => (serverAddress gw).getD bootpGw

/-- `udpfwd_handle_dhcp_relay_config_change`. Servers are compared by address only. -/
def udpfwdHandleDhcpRelayConfigChange (s : State) (rec : DhcpRelayRow)
    (modified : DhcpRelayModified) : Except Fault State := do
  match rec.port, rec.vrf with
  | some portName, some _ =>
    let (intfNode, s) := lookupIntferfaceNode s portName
    let s ←
      if modified.otherConfig then do
        let n ← s.node intfNode
        pure (s.setNode intfNode { n with bootpGw := changedBootpGw rec.bootpGateway n.bootpGw })
      else pure s
    if !modified.ipv4UcastServer then
      return s
    replaceServers s intfNode rec.ipv4UcastServer
      (fun server => if serverIpExists server.1 rec.ipv4UcastServer then none
        else some (server.1, dhcpsPort))
      (fun id server => server.1 = id) dhcpsPort
  | _, _ => return s

/-- `udpfwd_handle_udp_bcast_forwarder_config_change`. The port is compared as an
`int64_t` and stored as a `uint16_t`. -/
def udpfwdHandleUdpBcastForwarderConfigChange (s : State) (rec : UdpBcastForwarderRow) :
    Except Fault State := do
  match rec.srcPort, rec.destVrf with
  | some portName, some _ =>
    let (intfNode, s) := lookupIntferfaceNode s portName
    replaceServers s intfNode rec.ipv4UcastServer
      (fun server =>
        if !(serverIpExists server.1 rec.ipv4UcastServer && server.2.toNat = rec.udpDport) &&
          server.2.toNat = rec.udpDport
        then some server else none)
      (fun id server => server.1 = id ∧ server.2.toNat = rec.udpDport)
      (UInt16.ofNat (rec.udpDport % 65536).toNat)
  | _, _ => return s

/-! ## Table updates -/

/-- What both update functions do with a table. -/
def configUpdate {α : Type} (table : IdlTable α)
    (rowDelete : State → List α → Except Fault State)
    (configChange : State → α → Except Fault State) (s : State) : Except Fault State := do
  let rows := table.rows.map (·.row)
  if table.rows.isEmpty then
    return ← rowDelete s rows
  if !table.anyInserted && !table.anyDeleted && !table.anyModified then
    return s
  let s ← if table.anyDeleted then rowDelete s rows else pure s
  table.rows.foldlM (fun s rec =>
    if rec.inserted || rec.modified then configChange s rec.row else pure s) s

/-- `dhcp_relay_server_config_update`. -/
def dhcpRelayServerConfigUpdate (s : State) (table : IdlTable DhcpRelayRow)
    (modified : DhcpRelayModified) : Except Fault State :=
  configUpdate table udpfwdHandleDhcpRelayRowDelete
    (fun s rec => udpfwdHandleDhcpRelayConfigChange s rec modified) s

/-- `udp_bcast_forwarder_server_config_update`. -/
def udpBcastForwarderServerConfigUpdate (s : State) (table : IdlTable UdpBcastForwarderRow) :
    Except Fault State :=
  configUpdate table udpfwdHandleUdpBcastForwarderRowDelete
    udpfwdHandleUdpBcastForwarderConfigChange s

end Udpfwd
end IpApps
