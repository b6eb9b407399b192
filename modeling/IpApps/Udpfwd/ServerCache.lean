import IpApps.Udpfwd.State

/-!
# The server cache

The functions of `udpfwd_config.c` that create interface nodes and attach servers to
them or detach them. A server entry is shared by all interfaces that list it and counts
them in `ref_count`; each interface has an array of pointers to its servers, in which a
deletion moves the last pointer into the freed slot. An interface node without servers
and without a bootp gateway is freed together with its array.
-/

namespace IpApps
namespace Udpfwd

/-! ## Server entries -/

/-- Whether an entry is the server `(ipaddress, udpPort)`. -/
def UdpfwdServer.is (ipaddress : IpAddress) (udpPort : UInt16) (r : UdpfwdServer) : Bool :=
  r.ipAddress = ipaddress ∧ r.udpPort = udpPort

/-- `udpfwd_get_server_entry`. -/
def udpfwdGetServerEntry (s : State) (ipaddress : IpAddress) (udpPort : UInt16) :
    Except Fault (Option ServerPtr) := do
  let hashVal := s.hashInt ipaddress udpPort.toUInt32
  let found ← (s.serverHashMap.filter (·.1 = hashVal)).findM? fun e => do
    return (← s.server e.2).is ipaddress udpPort
  return found.map (·.2)

/-- `udpfwd_add_server_entry`. -/
def udpfwdAddServerEntry (s : State) (ipaddress : IpAddress) (udpPort : UInt16) :
    ServerPtr × State :=
  let server := s.nextServer
  let s := { s with nextServer := s.nextServer + 1 }
  let s := s.setServer server { ipAddress := ipaddress, udpPort := udpPort, refCount := 1 }
  (server, s.cmapInsert server (s.hashInt ipaddress udpPort.toUInt32))

/-! ## Slots of a server array -/

/-- `serverArray[i] = NULL`. -/
def UdpfwdInterfaceNode.clearSlot (n : UdpfwdInterfaceNode) (i : ℕ) : UdpfwdInterfaceNode :=
  { n with serverArray := n.serverArray.map (·.set i none) }

/-- `serverArray[i] = server`. -/
def UdpfwdInterfaceNode.setSlot (n : UdpfwdInterfaceNode) (i : ℕ) (server : ServerPtr) :
    Except Fault UdpfwdInterfaceNode :=
  match n.serverArray with
  | none => .error .nullPointer
  | some slots =>
    if i < slots.length then .ok { n with serverArray := some (slots.set i (some server)) }
    else .error .arrayBounds

/-- `udpfwd_push_deleted_server_ref_to_end`. -/
def udpfwdPushDeletedServerRefToEnd (n : UdpfwdInterfaceNode) (deletedIndex : ℕ) :
    Except Fault UdpfwdInterfaceNode :=
  match n.serverArray with
  | none => .error .nullPointer
  | some slots =>
    match slots[n.addrCount]? with
    | none => .error .arrayBounds
    | some server =>
      let slots := (slots.set deletedIndex none).set n.addrCount none
      .ok { n with serverArray := some (slots.set deletedIndex server) }

/-! ## References to a server -/

/-- One reference less: `server->ref_count--`, and the entry leaves the map and is freed
when no interface references it any more. -/
def dropServerRef (s : State) (q : ServerPtr) (server : UdpfwdServer) (hashVal : UInt32) :
    State :=
  let server := { server with refCount := server.refCount - 1 }
  if server.refCount = 0 then ((s.setServer q server).cmapRemove q hashVal).freeServer q
  else s.setServer q server

/-- One reference more: `server->ref_count++` of the entry in the map, or a new entry. -/
def takeServerRef (s : State) (ipaddress : IpAddress) (udpPort : UInt16) :
    Except Fault (ServerPtr × State) := do
  match ← udpfwdGetServerEntry s ipaddress udpPort with
  | some q =>
    let server ← s.server q
    return (q, s.setServer q { server with refCount := server.refCount + 1 })
  | none => return udpfwdAddServerEntry s ipaddress udpPort

/-- `udpfwd_remove_server_ref_entry`, with the deleted index when the entry is found. -/
def udpfwdRemoveServerRefEntry (s : State) (intfNode : NodePtr) (ipaddress : IpAddress)
    (udpPort : UInt16) : Except Fault (Option (ℕ × State)) := do
  let n ← s.node intfNode
  let found ← (List.range n.addrCount).findM? fun index => do
    return (← s.slotServer n index).is ipaddress udpPort
  match found with
  | none => return none
  | some index =>
    let q ← n.slot index
    let server ← s.server q
    if server.refCount = 0 then throw .assertion
    let s := dropServerRef s q server (s.hashInt ipaddress udpPort.toUInt32)
    return some (index, s.setNode intfNode (n.clearSlot index))

/-! ## Storing and removing an address -/

/-- `udpfwd_store_address`. -/
def udpfwdStoreAddress (s : State) (intfNode : NodePtr) (ipaddress : IpAddress)
    (udpPort : UInt16) : Except Fault (Bool × State) := do
  let n ← s.node intfNode
  if maxUdpBcastServerPerInterface ≤ n.addrCount then
    return (false, s)
  if n.addrCount ≠ 0 ∧ n.serverArray = none then
    return (false, s)
  -- the first server of the interface: allocate its array
  let n :=
    if n.serverArray = none then
      { n with
        addrCount := 0
        serverArray := some (List.replicate maxUdpBcastServerPerInterface none) }
    else n
  let (server, s) ← takeServerRef s ipaddress udpPort
  let n ← n.setSlot n.addrCount server
  return (true, s.setNode intfNode { n with addrCount := n.addrCount + 1 })

/-- `udpfwd_remove_address`. -/
def udpfwdRemoveAddress (s : State) (intfNode : NodePtr) (ipaddress : IpAddress)
    (udpPort : UInt16) : Except Fault (Bool × State) := do
  match ← udpfwdRemoveServerRefEntry s intfNode ipaddress udpPort with
  | none => return (false, s)
  | some (deletedIndex, s) =>
    let n ← s.node intfNode
    let n := { n with addrCount := n.addrCount - 1 }
    -- push the emptied slot to the end, unless the whole array is empty now
    let n ←
      if ¬(deletedIndex = 0 ∧ n.addrCount = 0) then
        udpfwdPushDeletedServerRefToEnd n deletedIndex
      else pure n
    let slots ←
      match n.serverArray with
      | none => throw .nullPointer
      | some slots => pure slots
    if slots.head? = some none ∧ n.addrCount = 0 then
      -- the last server of the interface is gone
      let n := { n with serverArray := none }
      if n.bootpGw = 0 then
        let s :=
          match s.shashFind n.portName with
          | some p => s.shashDelete n.portName p
          | none => s
        return (true, s.freeNode intfNode)
      else
        return (true, s.setNode intfNode n)
    else
      return (true, s.setNode intfNode n)

/-! ## Interface nodes -/

/-- `udpfwd_create_intferface_node`. -/
def udpfwdCreateIntferfaceNode (s : State) (pname : CString) : NodePtr × State :=
  let intfNode := s.nextNode
  let s := { s with nextNode := s.nextNode + 1 }
  let s := s.setNode intfNode
    { portName := pname, addrCount := 0, serverArray := none, bootpGw := 0,
      dhcpRelayPktCounters := {} }
  (intfNode, s.shashAdd pname intfNode)

end Udpfwd
end IpApps
