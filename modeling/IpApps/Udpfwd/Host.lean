import IpApps.Libc
import Mathlib.Data.List.Basic

/-!
# The host and the feature configuration

What the packet path asks the kernel for (interface names, indices and addresses, and
whether a `sendmsg` succeeds), the functions of the daemon that search the answers, and
the feature configuration of the control block.
-/

namespace IpApps
namespace Udpfwd

/-! ## The host -/

/-- `ifa_addr`, as far as the daemon looks at it. -/
inductive SockAddr
  /-- `AF_INET`. -/
  | inet (sinAddr : IpAddress)
  /-- `AF_PACKET`, with the `sll_halen` bytes of its hardware address. -/
  | packet (sllAddr : List UInt8)
  /-- Another family, or no address at all. -/
  | other
  deriving DecidableEq, Repr

/-- An element of the list `getifaddrs` returns. -/
structure IfAddrs where
  ifaName : CString
  ifaAddr : SockAddr
  deriving DecidableEq, Repr

/-- The answers of the host while one packet is processed; `none` is a failed call. -/
structure Host where
  getifaddrs : Option (List IfAddrs)
  ifNameindex : Option (List (UInt32 × CString))
  ifIndextoname : UInt32 → Option CString
  /-- Whether the n-th `sendmsg` for this packet succeeds. -/
  sendmsg : ℕ → Bool
  /-- What the local variable `mac` of `dhcp_relay_validate_agent_option` holds before it
  is assigned. -/
  unsetMac : Vector UInt8 6

/-- `IF_NAMESIZE`. -/
def ifNamesize : ℕ := 16

/-- The name comparison of every search below. -/
def sameIfName (ifName ifaName : CString) : Bool := Libc.strncmp ifName ifaName ifNamesize = 0

namespace Host

variable (host : Host)

/-- The IPv4 address of an element on the interface, which is what
`GET_NEXT_IP_ON_INTERFACE` steps through. -/
def ipOnInterface (ifName : CString) (ifa : IfAddrs) : Option IpAddress :=
  match ifa.ifaAddr with
  | .inet ip => if sameIfName ifName ifa.ifaName then some ip else none
  | _ => none

/-- `GET_NEXT_IP_ON_INTERFACE`. -/
def ipsOnInterface (ifName : CString) (ifaddr : List IfAddrs) : List IpAddress :=
  ifaddr.filterMap (ipOnInterface ifName)

/-- The ifindex that stands for a failure, -1. -/
def noIfIndex : UInt32 := 0xffffffff

/-- The index of the interface an element of the address list belongs to, if it holds
the address. -/
def ifIndexOf (ifNi : List (UInt32 × CString)) (ip : IpAddress) (ifa : IfAddrs) :
    Option UInt32 :=
  match ifa.ifaAddr with
  | .inet ipaddr =>
    if ipaddr = ip then (ifNi.find? fun i => sameIfName i.2 ifa.ifaName).map (·.1) else none
  | _ => none

/-- `getIfIndexfromIpAddress`. -/
def getIfIndexfromIpAddress (ip : IpAddress) : UInt32 :=
  match host.ifNameindex, host.getifaddrs with
  | some ifNi, some ifaddr => (ifaddr.findSome? (ifIndexOf ifNi ip)).getD noIfIndex
  | _, _ => noIfIndex

/-- The hardware address of an element on the interface. -/
def macOnInterface (ifName : CString) (ifa : IfAddrs) : Option (List UInt8) :=
  match ifa.ifaAddr with
  | .packet mac => if sameIfName ifName ifa.ifaName then some mac else none
  | _ => none

/-- `getMacfromIfname`: the bytes it writes to its output, none if it finds no hardware
address. -/
def getMacfromIfname (ifName : CString) : List UInt8 :=
  match host.getifaddrs with
  | some ifaddr => (ifaddr.findSome? (macOnInterface ifName)).getD []
  | none => []

/-- `MAX_UINT32`. -/
def maxUint32 : IpAddress := 0xffffffff

/-- `getLowestIpOnInterface`. The order is that of the host integers. -/
def getLowestIpOnInterface (ifName : CString) : IpAddress :=
  match host.getifaddrs with
  | none => 0
  | some ifaddr =>
    let lowestIp := (ipsOnInterface ifName ifaddr).foldl
      (fun lowestIp ip => if ip < lowestIp then ip else lowestIp) maxUint32
    if lowestIp ≠ maxUint32 then lowestIp else 0

/-- `ipExistsOnInterface`. -/
def ipExistsOnInterface (ifName : CString) (address : IpAddress) : Bool :=
  match host.getifaddrs with
  | none => false
  | some ifaddr => (ipsOnInterface ifName ifaddr).contains address

end Host

/-! ## The feature configuration -/

/-- `UDPFWD_FEATURE`. -/
inductive UdpfwdFeature
  | udpBcastForwarder
  | dhcpRelay
  | dhcpRelayHopCountIncrement
  | dhcpRelayOption82
  | dhcpRelayOption82Validate
  deriving DecidableEq, Repr

/-- The bit of a feature in the bit map, `FEATURE_BIT`. -/
def UdpfwdFeature.bit : UdpfwdFeature → UInt16
  | udpBcastForwarder => 0x0001
  | dhcpRelay => 0x0002
  | dhcpRelayHopCountIncrement => 0x0004
  | dhcpRelayOption82 => 0x0008
  | dhcpRelayOption82Validate => 0x0020

/-- `DHCP_RELAY_OPTION82_POLICY`; its `INVALID` is never stored. -/
inductive Option82Policy
  | keep
  | drop
  | replace
  deriving DecidableEq, Repr

/-- `DHCP_RELAY_OPTION82_REMOTE_ID`; its `REMOTE_ID_INVALID` is never stored. -/
inductive RemoteId
  | ip
  | mac
  deriving DecidableEq, Repr

/-- `FEATURE_CONFIG`. -/
structure FeatureConfig where
  config : UInt16
  policy : Option82Policy
  rId : RemoteId
  deriving DecidableEq, Repr

/-- `get_feature_status`: whether a feature is enabled. -/
def getFeatureStatus (value : UInt16) (feature : UdpfwdFeature) : Bool :=
  value &&& feature.bit ≠ 0

/-- `get_feature_status` on the configuration of the control block. -/
def FeatureConfig.enabled (cfg : FeatureConfig) (feature : UdpfwdFeature) : Bool :=
  getFeatureStatus cfg.config feature

/-! ## What the searches find -/

section searches

variable {host : Host} {ifName : CString} {ifaddr : List IfAddrs}

/-- The lowest address is either the bound the search starts from or one of the
interface. -/
theorem foldl_lowest_mem (ips : List IpAddress) (bound : IpAddress) :
    ips.foldl (fun lowestIp ip => if ip < lowestIp then ip else lowestIp) bound = bound ∨
      ips.foldl (fun lowestIp ip => if ip < lowestIp then ip else lowestIp) bound ∈ ips := by
  induction ips generalizing bound with
  | nil => exact Or.inl rfl
  | cons ip ips ih =>
    rw [List.foldl_cons]
    cases ih (if ip < bound then ip else bound) with
    | inl heq =>
      rw [heq]
      split
      · exact Or.inr List.mem_cons_self
      · exact Or.inl rfl
    | inr hmem => exact Or.inr (List.mem_cons_of_mem ip hmem)

/-- A lowest address other than 0 is an address of the interface. -/
theorem ipExistsOnInterface_getLowestIpOnInterface
    (h : host.getLowestIpOnInterface ifName ≠ 0) :
    host.ipExistsOnInterface ifName (host.getLowestIpOnInterface ifName) = true := by
  unfold Host.getLowestIpOnInterface Host.ipExistsOnInterface at *
  cases hifs : host.getifaddrs with
  | none => simp [hifs] at h
  | some ifaddr =>
    simp only [hifs] at h ⊢
    split at h
    · rename_i hlow
      rw [if_pos hlow]
      apply List.contains_iff_mem.mpr
      exact (foldl_lowest_mem (Host.ipsOnInterface ifName ifaddr) Host.maxUint32).resolve_left hlow
    · exact absurd rfl h

end searches

end Udpfwd
end IpApps
