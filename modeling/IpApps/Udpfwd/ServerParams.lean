import IpApps.Lib.ExceptLoops
import IpApps.Udpfwd.Host
import IpApps.Udpfwd.ServerRuns

/-!
# The parameters of the server commands

`decode_server_param` and the commands that call it: what is typed is turned into a server, or
refused. A UDP port is typed by its name or by its number, and only the ports of the table
`udp_protocol` are accepted.
-/

namespace IpApps
namespace Udpfwd
namespace Vty

open ExceptLoops

/-! ## `decode_server_param` -/

/-- The address tests of the CLI headers, on an address in host order. -/
structure AddressTests where
  isValidIpv4 : ℕ → Bool
  isBroadcastIpv4 : ℕ → Bool
  isSubnetBroadcast : ℕ → Bool

/-- `udp_protocol`. -/
def udpProtocol : List (String × ℤ) :=
  [("dns", 53), ("ntp", 123), ("netbios-ns", 137), ("netbios-dgm", 138), ("radius", 1812),
    ("radius-old", 1645), ("rip", 520), ("snmp", 161), ("snmp-trap", 162), ("tftp", 69),
    ("timep", 37)]

/-- The address of a server, for `UDP_BCAST_FORWARDER` or for `DHCP_RELAY`. -/
def decodeAddress (tests : AddressTests) (argv0 : CString) (type : UdpfwdFeature) :
    Except String CString :=
  match Libc.inetPton argv0 with
  | none => .error "Invalid IPv4 address."
  | some addr =>
    let ip := Libc.htonl addr.toNat
    if !tests.isValidIpv4 ip && type = .udpBcastForwarder &&
        (tests.isBroadcastIpv4 ip || !tests.isSubnetBroadcast ip) then
      .error "Broadcast, multicast and loopback addresses are not allowed."
    else if !tests.isValidIpv4 ip && type = .dhcpRelay &&
        (!tests.isBroadcastIpv4 ip || !tests.isSubnetBroadcast ip) then
      .error "Multicast and loopback addresses are not allowed."
    else .ok argv0

/-- The protocol that is typed, by its name if it begins with a letter. -/
def findProtocol (argv1 : CString) : Option (String × ℤ) :=
  if argv1.head?.any Char.isAlpha then
    udpProtocol.find? fun protocol => argv1 = protocol.1.toList
  else
    udpProtocol.find? fun protocol => (Libc.atoi argv1).toInt = protocol.2

/-- The UDP port of a server. -/
def decodePort (argv1 : CString) : Except String ℤ :=
  match findProtocol argv1 with
  | some protocol => .ok protocol.2
  | none => .error "Invalid UDP portname/portnumber entered. "

/-- `decode_server_param`. Without a second argument a server of `DHCP_RELAY` is decoded. -/
def decodeServerParam (tests : AddressTests) (argv0 : CString) :
    Option CString → Except String Server
  | none => do return .helperAddress (← decodeAddress tests argv0 .dhcpRelay)
  | some argv1 => do
    let ipAddr ← decodeAddress tests argv0 .udpBcastForwarder
    return .forwardProtocol ipAddr (← decodePort argv1)

/-- A port that is typed by its name and one that is typed by its number. -/
example : decodePort "ntp".toList = decodePort " 123".toList := by decide

/-! ## The commands -/

/-- What is typed; `set` tells a command from its `no` form. -/
inductive Line
  /-- `ip helper-address A.B.C.D`. -/
  | ipHelperAddress (argv0 : CString) (set : Bool)
  /-- `ip forward-protocol udp A.B.C.D (INTEGER | WORD)`. -/
  | ipForwardProtocol (argv0 argv1 : CString) (set : Bool)
  /-- `ip bootp-gateway A.B.C.D`. -/
  | ipBootpGateway (argv0 : CString) (set : Bool)

/-- The address of a gateway. -/
def decodeGateway (tests : AddressTests) (argv0 : CString) : Except String CString :=
  match Libc.inetPton argv0 with
  | none => .error "Invalid IPv4 address."
  | some addr =>
    if !tests.isValidIpv4 (Libc.htonl addr.toNat) then
      .error "Broadcast, multicast and loopback addresses are not allowed."
    else .ok argv0

/-- The command of a line, or the message that is printed in its place. -/
def Line.decode (tests : AddressTests) : Line → Except String ServerCommand
  | ipHelperAddress argv0 set => do
    return .server (← decodeServerParam tests argv0 none) set
  | ipForwardProtocol argv0 argv1 set => do
    return .server (← decodeServerParam tests argv0 (some argv1)) set
  | ipBootpGateway argv0 set => do
    return .bootpGateway (← decodeGateway tests argv0) set

/-- Executes a line on the tables. -/
def Line.exec (tests : AddressTests) (defaultVrfName : CString) (vty : Session) (t : ServerTables)
    (line : Line) : Outcome ServerTables :=
  match line.decode tests with
  | .ok command => command.exec defaultVrfName vty t
  | .error message => abort message .success

/-! ## What is accepted -/

/-- The ports of the table are the numbers of ports other than `DHCPS_PORT`. -/
theorem udpProtocol_number {protocol : String × ℤ} (h : protocol ∈ udpProtocol) :
    ∃ udpPort : UInt16, protocol.2 = udpPort.toNat ∧ udpPort ≠ dhcpsPort := by
  have hall : ∀ protocol ∈ udpProtocol, 0 ≤ protocol.2 ∧ protocol.2 < 2 ^ 16 ∧
      protocol.2 ≠ dhcpsPort.toNat := by decide
  obtain ⟨hnonneg, hlt, hne⟩ := hall protocol h
  obtain ⟨i, hi⟩ := Int.eq_ofNat_of_zero_le hnonneg
  rw [hi] at hlt hne ⊢
  have hsize : i < UInt16.size := Int.ofNat_lt.mp hlt
  have htoNat : (UInt16.ofNat i).toNat = i := UInt16.toNat_ofNat_of_lt' hsize
  refine ⟨UInt16.ofNat i, by rw [htoNat], fun heq => hne ?_⟩
  rw [← heq, htoNat]

theorem decodePort_mem {argv1 : CString} {udpPort : ℤ} (h : decodePort argv1 = .ok udpPort) :
    ∃ protocol ∈ udpProtocol, protocol.2 = udpPort := by
  unfold decodePort at h
  cases hfound : findProtocol argv1 with
  | none =>
    rw [hfound] at h
    cases h
  | some protocol =>
    rw [hfound] at h
    refine ⟨protocol, ?_, Except.ok.inj h⟩
    unfold findProtocol at hfound
    split at hfound <;> exact List.mem_of_find?_eq_some hfound

theorem decodeAddress_ok {tests : AddressTests} {argv0 ipAddr : CString} {type : UdpfwdFeature}
    (h : decodeAddress tests argv0 type = .ok ipAddr) : (Libc.inetPton ipAddr).isSome := by
  unfold decodeAddress at h
  cases haddr : Libc.inetPton argv0 with
  | none =>
    rw [haddr] at h
    cases h
  | some addr =>
    rw [haddr] at h
    dsimp only at h
    split at h
    · cases h
    · split at h
      · cases h
      · rw [← Except.ok.inj h, haddr]
        rfl

theorem decodeGateway_ok {tests : AddressTests} {argv0 gatewayAddress : CString}
    (h : decodeGateway tests argv0 = .ok gatewayAddress) :
    (Libc.inetPton gatewayAddress).isSome := by
  unfold decodeGateway at h
  cases haddr : Libc.inetPton argv0 with
  | none =>
    rw [haddr] at h
    cases h
  | some addr =>
    rw [haddr] at h
    dsimp only at h
    split at h
    · cases h
    · rw [← Except.ok.inj h, haddr]
      rfl

/-- A command that is decoded has an address that `inet_pton` reads, and the number of a port
other than `DHCPS_PORT`. -/
theorem Line.decode_ok {tests : AddressTests} {line : Line} {command : ServerCommand}
    (h : line.decode tests = .ok command) :
    (Libc.inetPton command.address).isSome ∧
      ∀ ipAddr i set, command = .server (.forwardProtocol ipAddr i) set →
        ∃ udpPort : UInt16, i = udpPort.toNat ∧ udpPort ≠ dhcpsPort := by
  cases line with
  | ipHelperAddress argv0 set =>
    obtain ⟨server, hserver, hcommand⟩ := bind_eq_ok h
    obtain ⟨ipAddr, haddr, hdecoded⟩ := bind_eq_ok hserver
    obtain rfl := Except.ok.inj hdecoded
    obtain rfl := Except.ok.inj hcommand
    refine ⟨decodeAddress_ok haddr, fun _ _ _ heq => ?_⟩
    cases heq
  | ipForwardProtocol argv0 argv1 set =>
    obtain ⟨server, hserver, hcommand⟩ := bind_eq_ok h
    obtain ⟨ipAddr, haddr, hrest⟩ := bind_eq_ok hserver
    obtain ⟨i, hport, hdecoded⟩ := bind_eq_ok hrest
    obtain rfl := Except.ok.inj hdecoded
    obtain rfl := Except.ok.inj hcommand
    refine ⟨decodeAddress_ok haddr, fun ipAddr' i' set' heq => ?_⟩
    cases heq
    obtain ⟨protocol, hmem, rfl⟩ := decodePort_mem hport
    exact udpProtocol_number hmem
  | ipBootpGateway argv0 set =>
    obtain ⟨gatewayAddress, haddr, hcommand⟩ := bind_eq_ok h
    obtain rfl := Except.ok.inj hcommand
    refine ⟨decodeGateway_ok haddr, fun _ _ _ heq => ?_⟩
    cases heq

end Vty
end Udpfwd
end IpApps
