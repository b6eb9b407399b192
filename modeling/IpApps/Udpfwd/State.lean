import IpApps.Libc
import Mathlib.Logic.Function.Basic

/-!
# The state of the IPv4 relay daemon

The control block `UDPFWD_CTRL_CB` with the objects it points to. Interface nodes and
server entries live on a heap: a pointer is a number, an object that was freed (or never
allocated) is `none`, and fresh pointers are never reused, so that every access through a
dangling pointer is visible as a `Fault`. Allocation always succeeds.

The two tables are lists. `intfHashTable` is a string hash (`shash`), whose walk order is
the order of the list; `serverHashMap` files each entry under the hash it was inserted
with (`cmap`).
-/

namespace IpApps
namespace Udpfwd

/-- Why a run has no defined behaviour from some point on. -/
inductive Fault
  /-- An interface node is read or written after it was freed. -/
  | freedNode
  /-- A server entry is read or written after it was freed. -/
  | freedServer
  /-- A NULL array, or a slot of an array that holds no pointer, is followed. -/
  | nullPointer
  /-- An index past the end of an array of the heap. -/
  | arrayBounds
  /-- A scratch array on the stack is written or scanned past its end. -/
  | scratchBounds
  /-- A failed `assert`. -/
  | assertion
  /-- A loop of the source is still running after the rounds it was given. -/
  | unfinished
  deriving DecidableEq, Repr

abbrev NodePtr := ℕ
abbrev ServerPtr := ℕ

/-- `MAX_UDP_BCAST_SERVER_PER_INTERFACE`: eight helper addresses and eight
forward-protocol servers. -/
def maxUdpBcastServerPerInterface : ℕ := 8 + 8

/-- `DHCPS_PORT`. -/
def dhcpsPort : UInt16 := 67

/-- `DHCPC_PORT`. -/
def dhcpcPort : UInt16 := 68

/-- `UDPFWD_SERVER_T`. -/
structure UdpfwdServer where
  ipAddress : IpAddress
  udpPort : UInt16
  refCount : UInt16
  deriving DecidableEq, Repr

/-- What identifies a server: its address and its port. -/
abbrev ServerKey := IpAddress × UInt16

def UdpfwdServer.key (r : UdpfwdServer) : ServerKey := (r.ipAddress, r.udpPort)

/-- `DHCP_RELAY_PKT_COUNTER`. -/
structure DhcpRelayPktCounter where
  clientDrops : UInt32 := 0
  clientValids : UInt32 := 0
  servDrops : UInt32 := 0
  servValids : UInt32 := 0
  clientDropsWithOption82 : UInt32 := 0
  clientValidsWithOption82 : UInt32 := 0
  servDropsWithOption82 : UInt32 := 0
  servValidsWithOption82 : UInt32 := 0
  deriving DecidableEq, Repr

/-- `UDPFWD_INTERFACE_NODE_T`. The array has a fixed number of slots; a slot that was
never filled or was emptied holds no pointer. -/
structure UdpfwdInterfaceNode where
  portName : CString
  addrCount : ℕ
  serverArray : Option (List (Option ServerPtr))
  bootpGw : IpAddress
  dhcpRelayPktCounters : DhcpRelayPktCounter
  deriving DecidableEq, Repr

/-- The daemon's state. `hashInt` is the hash function the server map is used with. -/
structure State where
  hashInt : UInt32 → UInt32 → UInt32
  nodes : NodePtr → Option UdpfwdInterfaceNode
  servers : ServerPtr → Option UdpfwdServer
  intfHashTable : List (CString × NodePtr)
  serverHashMap : List (UInt32 × ServerPtr)
  nextNode : NodePtr
  nextServer : ServerPtr

/-- Empty tables, as after `udpfwd_module_init`. -/
def State.empty (hashInt : UInt32 → UInt32 → UInt32) : State where
  hashInt := hashInt
  nodes := fun _ => none
  servers := fun _ => none
  intfHashTable := []
  serverHashMap := []
  nextNode := 0
  nextServer := 0

namespace State

variable (s : State)

/-! ## Access through pointers -/

def node (p : NodePtr) : Except Fault UdpfwdInterfaceNode :=
  match s.nodes p with
  | some n => .ok n
  | none => .error .freedNode

def server (q : ServerPtr) : Except Fault UdpfwdServer :=
  match s.servers q with
  | some r => .ok r
  | none => .error .freedServer

def setNode (p : NodePtr) (n : UdpfwdInterfaceNode) : State :=
  { s with nodes := Function.update s.nodes p (some n) }

def freeNode (p : NodePtr) : State :=
  { s with nodes := Function.update s.nodes p none }

def setServer (q : ServerPtr) (r : UdpfwdServer) : State :=
  { s with servers := Function.update s.servers q (some r) }

def freeServer (q : ServerPtr) : State :=
  { s with servers := Function.update s.servers q none }

theorem node_eq_ok {p : NodePtr} {n : UdpfwdInterfaceNode} (h : s.nodes p = some n) :
    s.node p = .ok n := by
  rw [node, h]

theorem node_eq_error {p : NodePtr} (h : s.nodes p = none) :
    s.node p = .error .freedNode := by
  rw [node, h]

theorem server_eq_ok {q : ServerPtr} {r : UdpfwdServer} (h : s.servers q = some r) :
    s.server q = .ok r := by
  rw [server, h]

/-! ## The interface hash table -/

/-- `shash_find`. -/
def shashFind (name : CString) : Option NodePtr :=
  (s.intfHashTable.find? (·.1 = name)).map (·.2)

/-- `shash_add`. -/
def shashAdd (name : CString) (p : NodePtr) : State :=
  { s with intfHashTable := s.intfHashTable ++ [(name, p)] }

/-- `shash_delete` of the entry that files `p` under `name`. -/
def shashDelete (name : CString) (p : NodePtr) : State :=
  { s with intfHashTable := s.intfHashTable.erase (name, p) }

/-! ## The server hash map -/

/-- `cmap_insert`. -/
def cmapInsert (q : ServerPtr) (hash : UInt32) : State :=
  { s with serverHashMap := (hash, q) :: s.serverHashMap }

/-- `cmap_remove`. -/
def cmapRemove (q : ServerPtr) (hash : UInt32) : State :=
  { s with serverHashMap := s.serverHashMap.erase (hash, q) }

end State

/-- The pointer in slot `i` of the interface's server array. -/
def UdpfwdInterfaceNode.slot (n : UdpfwdInterfaceNode) (i : ℕ) : Except Fault ServerPtr :=
  match n.serverArray with
  | none => .error .nullPointer
  | some slots =>
    match slots[i]? with
    | none => .error .arrayBounds
    | some none => .error .nullPointer
    | some (some q) => .ok q

/-- `intfNode->serverArray[i]`, followed to the server entry. -/
def State.slotServer (s : State) (n : UdpfwdInterfaceNode) (i : ℕ) :
    Except Fault UdpfwdServer := do
  s.server (← n.slot i)

end Udpfwd
end IpApps
