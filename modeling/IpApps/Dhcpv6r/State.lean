import IpApps.Libc
import Mathlib.Logic.Function.Basic

/-!
# The state of the DHCPv6 relay daemon

The part of `DHCPV6_RELAY_CTRL_CB` that holds the configuration, with the objects it
points to, and the functions of `dhcpv6_relay_config.c` that attach servers to interfaces
and detach them. Pointers are numbers that are never reused, an object that was freed is
`none`, and allocation always succeeds.

A server is an address string with the name of an egress interface, if it has one. Two
servers are compared with `strncmp` bounded by the length of the first string, so that a
server equals all those it is a beginning of.
-/

namespace IpApps
namespace Dhcpv6r

/-- Why a run has no defined behaviour from some point on. -/
inductive Fault
  /-- An interface node is read or written after it was freed. -/
  | freedNode
  /-- A server entry is read or written after it was freed. -/
  | freedServer
  /-- A NULL array, or a slot of an array that holds no pointer, is followed. -/
  | nullPointer
  /-- An index past the end of a server array. -/
  | arrayBounds
  /-- An index past the end of a column of a row. -/
  | rowBounds
  /-- A failed `assert`. -/
  | assertion
  /-- `cmap_remove` of an entry that is not filed under the given hash. -/
  | notFiled
  /-- A loop of the source is still running after the rounds it was given. -/
  | unfinished
  deriving DecidableEq, Repr

abbrev NodePtr := ℕ
abbrev ServerPtr := ℕ

/-- `MAX_SERVERS_PER_INTERFACE`. -/
def maxServersPerInterface : ℕ := 8

/-- What the daemon uses of the Open vSwitch library: its hash functions, and the order in
which `CMAP_FOR_EACH_WITH_HASH` visits the entries of one hash, which can be any. -/
structure Ovs where
  hashString : CString → UInt32 → UInt32
  hash2words : UInt32 → UInt32 → UInt32
  bucketOrder : List ServerPtr → List ServerPtr
  bucketOrder_perm : ∀ bucket, (bucketOrder bucket).Perm bucket

/-! ## Servers -/

/-- What a server is given by: its address and the name of its egress interface. -/
abbrev ServerKey := CString × Option CString

/-- `DHCPV6_RELAY_SERVER_T`. -/
structure Server where
  ipv6Address : CString
  egressIfName : Option CString
  refCount : UInt16
  deriving DecidableEq, Repr

def Server.key (r : Server) : ServerKey := (r.ipv6Address, r.egressIfName)

/-- `compare_server`. -/
def compareServer (ip1 ip2 : CString) (ifName1 ifName2 : Option CString) : Bool :=
  if Libc.strncmp ip1 ip2 ip1.length = 0 then
    match ifName1, ifName2 with
    | none, none => true
    | some ifName1, some ifName2 => Libc.strncmp ifName1 ifName2 ifName1.length = 0
    | _, _ => false
  else false

/-- `GENERATE_KEY`. -/
def generateKey (ovs : Ovs) (ipv6Address : CString) (egressIfName : Option CString) : UInt32 :=
  match egressIfName with
  | some ifName => ovs.hash2words (ovs.hashString ipv6Address 0) (ovs.hashString ifName 0)
  | none => ovs.hash2words (ovs.hashString ipv6Address 0) 0

/-- The server entries of the heap and `serverHashMap`, which files each under the hash it
was inserted with. -/
structure ServerMap where
  entries : ServerPtr → Option Server
  serverHashMap : List (UInt32 × ServerPtr)
  next : ServerPtr

namespace ServerMap

variable (m : ServerMap)

def server (q : ServerPtr) : Except Fault Server :=
  match m.entries q with
  | some r => .ok r
  | none => .error .freedServer

def setServer (q : ServerPtr) (r : Server) : ServerMap :=
  { m with entries := Function.update m.entries q (some r) }

def freeServer (q : ServerPtr) : ServerMap :=
  { m with entries := Function.update m.entries q none }

/-- `cmap_insert`. -/
def cmapInsert (q : ServerPtr) (hash : UInt32) : ServerMap :=
  { m with serverHashMap := (hash, q) :: m.serverHashMap }

/-- `cmap_remove`, which asserts that the entry is filed under the hash. -/
def cmapRemove (q : ServerPtr) (hash : UInt32) : Except Fault ServerMap :=
  if (hash, q) ∈ m.serverHashMap then
    .ok { m with serverHashMap := m.serverHashMap.erase (hash, q) }
  else .error .notFiled

/-- The entries filed under a hash. -/
def bucket (hash : UInt32) : List ServerPtr :=
  (m.serverHashMap.filter (·.1 = hash)).map (·.2)

end ServerMap

/-- `dhcpv6r_get_server_entry`. -/
def dhcpv6rGetServerEntry (ovs : Ovs) (m : ServerMap) (ipv6Address : CString)
    (egressIfName : Option CString) : Except Fault (Option ServerPtr) :=
  let hashKey := generateKey ovs ipv6Address egressIfName
  (ovs.bucketOrder (m.bucket hashKey)).findM? fun q => do
    let serverIP ← m.server q
    return compareServer ipv6Address serverIP.ipv6Address egressIfName serverIP.egressIfName

/-- `dhcpv6r_add_server_entry`. -/
def dhcpv6rAddServerEntry (ovs : Ovs) (m : ServerMap) (ipv6Address : CString)
    (egressIfName : Option CString) : ServerPtr × ServerMap :=
  let serverIP := m.next
  let m := { m with next := m.next + 1 }
  let m := m.setServer serverIP
    { ipv6Address := ipv6Address, egressIfName := egressIfName, refCount := 1 }
  (serverIP, m.cmapInsert serverIP (generateKey ovs ipv6Address egressIfName))

/-- One reference more: `server->ref_count++` of the entry found, or a new entry. -/
def takeServerRef (ovs : Ovs) (m : ServerMap) (ipv6Address : CString)
    (egressIfName : Option CString) : Except Fault (ServerPtr × ServerMap) := do
  match ← dhcpv6rGetServerEntry ovs m ipv6Address egressIfName with
  | some q =>
    let server ← m.server q
    return (q, m.setServer q { server with refCount := server.refCount + 1 })
  | none => return dhcpv6rAddServerEntry ovs m ipv6Address egressIfName

/-- One reference less: `server->ref_count--`, and without references the entry leaves the
map and is freed. -/
def dropServerRef (m : ServerMap) (q : ServerPtr) (hashKey : UInt32) :
    Except Fault ServerMap := do
  let server ← m.server q
  if server.refCount = 0 then throw .assertion
  let server := { server with refCount := server.refCount - 1 }
  let m := m.setServer q server
  if server.refCount = 0 then
    let m ← m.cmapRemove q hashKey
    return m.freeServer q
  else return m

/-! ## Interfaces -/

/-- `DHCPV6_RELAY_INTERFACE_NODE_T`, without its packet counters. A slot of the array that
was never filled or was emptied holds no pointer. -/
structure InterfaceNode where
  portName : CString
  addrCount : ℕ
  serverArray : Option (List (Option ServerPtr))
  deriving DecidableEq, Repr

/-- The interface nodes of the heap and `intfHashTable`, whose walk order is the order of
the list. -/
structure InterfaceTable where
  nodes : NodePtr → Option InterfaceNode
  intfHashTable : List (CString × NodePtr)
  next : NodePtr

namespace InterfaceTable

variable (t : InterfaceTable)

def node (p : NodePtr) : Except Fault InterfaceNode :=
  match t.nodes p with
  | some n => .ok n
  | none => .error .freedNode

def setNode (p : NodePtr) (n : InterfaceNode) : InterfaceTable :=
  { t with nodes := Function.update t.nodes p (some n) }

def freeNode (p : NodePtr) : InterfaceTable :=
  { t with nodes := Function.update t.nodes p none }

/-- `shash_find`. -/
def shashFind (name : CString) : Option NodePtr :=
  (t.intfHashTable.find? (·.1 = name)).map (·.2)

/-- `shash_add`. -/
def shashAdd (name : CString) (p : NodePtr) : InterfaceTable :=
  { t with intfHashTable := t.intfHashTable ++ [(name, p)] }

/-- `shash_delete` of the entry that files `p` under `name`. -/
def shashDelete (name : CString) (p : NodePtr) : InterfaceTable :=
  { t with intfHashTable := t.intfHashTable.erase (name, p) }

end InterfaceTable

/-- `dhcpv6r_create_intferface_node`. -/
def dhcpv6rCreateIntferfaceNode (t : InterfaceTable) (pname : CString) :
    NodePtr × InterfaceTable :=
  let intfNode := t.next
  let t := { t with next := t.next + 1 }
  let t := t.setNode intfNode { portName := pname, addrCount := 0, serverArray := none }
  (intfNode, t.shashAdd pname intfNode)

namespace InterfaceNode

variable (n : InterfaceNode)

/-- The pointer in slot `i` of the server array. -/
def slot (i : ℕ) : Except Fault ServerPtr :=
  match n.serverArray with
  | none => .error .nullPointer
  | some slots =>
    match slots[i]? with
    | none => .error .arrayBounds
    | some none => .error .nullPointer
    | some (some q) => .ok q

/-- `serverArray[i] = NULL`. -/
def clearSlot (i : ℕ) : InterfaceNode :=
  { n with serverArray := n.serverArray.map (·.set i none) }

/-- `serverArray[i] = server`. -/
def setSlot (i : ℕ) (server : ServerPtr) : Except Fault InterfaceNode :=
  match n.serverArray with
  | none => .error .nullPointer
  | some slots =>
    if i < slots.length then .ok { n with serverArray := some (slots.set i (some server)) }
    else .error .arrayBounds

end InterfaceNode

/-- `dhcpv6r_push_deleted_server_ref_to_end`. -/
def dhcpv6rPushDeletedServerRefToEnd (n : InterfaceNode) (deletedIndex : ℕ) :
    Except Fault InterfaceNode :=
  match n.serverArray with
  | none => .error .nullPointer
  | some slots =>
    match slots[n.addrCount]? with
    | none => .error .arrayBounds
    | some server =>
      let slots := (slots.set deletedIndex none).set n.addrCount none
      .ok { n with serverArray := some (slots.set deletedIndex server) }

/-! ## The state -/

structure State where
  servers : ServerMap
  intfs : InterfaceTable

/-- Empty tables. -/
def State.empty : State where
  servers := { entries := fun _ => none, serverHashMap := [], next := 0 }
  intfs := { nodes := fun _ => none, intfHashTable := [], next := 0 }

/-- `intfNode->serverArray[i]`, followed to the server entry. -/
def State.slotServer (s : State) (n : InterfaceNode) (i : ℕ) : Except Fault Server := do
  s.servers.server (← n.slot i)

/-- `dhcpv6r_store_address`. -/
def dhcpv6rStoreAddress (ovs : Ovs) (s : State) (intfNode : NodePtr) (ipv6Address : CString)
    (egressIfName : Option CString) : Except Fault (Bool × State) := do
  let n ← s.intfs.node intfNode
  if maxServersPerInterface ≤ n.addrCount then
    return (false, s)
  if n.addrCount ≠ 0 ∧ n.serverArray = none then
    return (false, s)
  -- the first server of the interface: allocate its array
  let n :=
    if n.serverArray = none then
      { n with
        addrCount := 0
        serverArray := some (List.replicate maxServersPerInterface none) }
    else n
  let (server, servers) ← takeServerRef ovs s.servers ipv6Address egressIfName
  let n ← n.setSlot n.addrCount server
  return (true, ⟨servers, s.intfs.setNode intfNode { n with addrCount := n.addrCount + 1 }⟩)

/-- `dhcpv6r_remove_server_ref_entry`, with the deleted index when a server is found. -/
def dhcpv6rRemoveServerRefEntry (ovs : Ovs) (s : State) (intfNode : NodePtr)
    (ipv6Address : CString) (egressIfName : Option CString) :
    Except Fault (Option (ℕ × State)) := do
  let n ← s.intfs.node intfNode
  let found ← (List.range n.addrCount).findM? fun index => do
    let server ← s.slotServer n index
    return compareServer server.ipv6Address ipv6Address server.egressIfName egressIfName
  match found with
  | none => return none
  | some index =>
    let q ← n.slot index
    let servers ← dropServerRef s.servers q (generateKey ovs ipv6Address egressIfName)
    return some (index, ⟨servers, s.intfs.setNode intfNode (n.clearSlot index)⟩)

/-- `dhcpv6r_remove_address`. -/
def dhcpv6rRemoveAddress (ovs : Ovs) (s : State) (intfNode : NodePtr) (ipv6Address : CString)
    (egressIfName : Option CString) : Except Fault (Bool × State) := do
  match ← dhcpv6rRemoveServerRefEntry ovs s intfNode ipv6Address egressIfName with
  | none => return (false, s)
  | some (deletedIndex, s) =>
    let n ← s.intfs.node intfNode
    let n := { n with addrCount := n.addrCount - 1 }
    -- push the emptied slot to the end, unless the whole array is empty now
    let n ←
      if ¬(deletedIndex = 0 ∧ n.addrCount = 0) then
        dhcpv6rPushDeletedServerRefToEnd n deletedIndex
      else pure n
    let slots ←
      match n.serverArray with
      | none => throw .nullPointer
      | some slots => pure slots
    if slots.head? = some none ∧ n.addrCount = 0 then
      -- the last server of the interface is gone
      let intfs :=
        match s.intfs.shashFind n.portName with
        | some p => s.intfs.shashDelete n.portName p
        | none => s.intfs
      return (true, ⟨s.servers, intfs.freeNode intfNode⟩)
    else
      return (true, ⟨s.servers, s.intfs.setNode intfNode n⟩)

end Dhcpv6r
end IpApps
