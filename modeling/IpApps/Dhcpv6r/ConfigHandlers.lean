import IpApps.Dhcpv6r.State

/-!
# Configuration handlers

The handlers of `dhcpv6_relay_config.c` for the rows of the table `DHCP_Relay`.
-/

namespace IpApps
namespace Dhcpv6r

/-- The columns of a `DHCP_Relay` row that are read; of `vrf` only whether it is there. -/
structure DhcpRelayRow where
  port : Option CString
  vrf : Option CString
  ipv6UcastServer : List CString
  deriving DecidableEq, Repr

/-- `rec->ipv6_ucast_server[i]`. -/
def DhcpRelayRow.ucastServer (rec : DhcpRelayRow) (i : ℕ) : Except Fault CString :=
  match rec.ipv6UcastServer[i]? with
  | some server => .ok server
  | none => .error .rowBounds

/-! ## Row deletion -/

/-- `dhcpv6r_handle_row_delete`, for one interface. The array pointer is read once before
the loop; the array is freed together with its node. -/
def rowDeleteIntf (ovs : Ovs) (rows : List DhcpRelayRow) (s : State)
    (node : CString × NodePtr) : Except Fault State := do
  let found := rows.any fun rec =>
    match rec.port with
    | some name => Libc.strncmp name node.1 name.length = 0
    | none => false
  if found then return s
  let intf := node.2
  let count := (← s.intfs.node intf).addrCount
  (List.range count).foldlM (fun s iter => do
    let server ← s.slotServer (← s.intfs.node intf) iter
    return (← dhcpv6rRemoveAddress ovs s intf server.ipv6Address server.egressIfName).2) s

/-- `dhcpv6r_handle_row_delete`. -/
def dhcpv6rHandleRowDelete (ovs : Ovs) (s : State) (rows : List DhcpRelayRow) :
    Except Fault State :=
  s.intfs.intfHashTable.foldlM (rowDeleteIntf ovs rows) s

/-! ## A changed row -/

/-- `dhcpv6r_get_ucast_entries_added`. -/
def dhcpv6rGetUcastEntriesAdded (ovs : Ovs) (s : State) (intfNode : NodePtr)
    (rec : DhcpRelayRow) : Except Fault State :=
  (List.range rec.ipv6UcastServer.length).foldlM (fun s iter => do
    let n ← s.intfs.node intfNode
    let found ← (List.range n.addrCount).anyM fun iter1 => do
      let ipv6Address := (← s.slotServer n iter1).ipv6Address
      return compareServer ipv6Address (← rec.ucastServer iter) none none
    if found then return s
    return (← dhcpv6rStoreAddress ovs s intfNode (← rec.ucastServer iter) none).2) s

/-- The loop of `dhcpv6r_flush_removed_ucast_entries`. The inner loop counts `iter1`, but
compares with the element at `iter`. -/
def flushFrom (ovs : Ovs) (intfNode : NodePtr) (rec : DhcpRelayRow) :
    ℕ → ℕ → State → Except Fault State
  | 0, _, _ => .error .unfinished
  | rounds + 1, iter, s => do
    let n ← s.intfs.node intfNode
    if n.addrCount ≤ iter then return s
    let ipv6Address := (← s.slotServer n iter).ipv6Address
    let found ← (List.range rec.ipv6UcastServer.length).anyM fun _ => do
      return compareServer ipv6Address (← rec.ucastServer iter) none none
    let s ←
      if found then pure s
      else pure (← dhcpv6rRemoveAddress ovs s intfNode ipv6Address none).2
    flushFrom ovs intfNode rec rounds (iter + 1) s

/-- `dhcpv6r_flush_removed_ucast_entries`. The counter of the interface is a `uint8_t`, so
that the loop ends within 256 rounds. -/
def dhcpv6rFlushRemovedUcastEntries (ovs : Ovs) (s : State) (intfNode : NodePtr)
    (rec : DhcpRelayRow) : Except Fault State :=
  flushFrom ovs intfNode rec 256 0 s

/-- `dhcpv6r_handle_config_change`. -/
def dhcpv6rHandleConfigChange (ovs : Ovs) (s : State) (rec : DhcpRelayRow)
    (ucastServerModified : Bool) : Except Fault State :=
  match rec.port, rec.vrf with
  | some portName, some _ => do
    let (intfNode, s) :=
      match s.intfs.shashFind portName with
      | some intfNode => (intfNode, s)
      | none =>
        let (intfNode, intfs) := dhcpv6rCreateIntferfaceNode s.intfs portName
        (intfNode, ⟨s.servers, intfs⟩)
    if ucastServerModified then
      let s ← dhcpv6rGetUcastEntriesAdded ovs s intfNode rec
      dhcpv6rFlushRemovedUcastEntries ovs s intfNode rec
    else return s
  | _, _ => return s

end Dhcpv6r
end IpApps
