import IpApps.SourceInterface.Selection
import IpApps.Udpfwd.ConfigHandlers

/-!
# The commands of the server tables

`ip helper-address`, `ip forward-protocol udp` and `ip bootp-gateway` with their `no` forms, as
`dhcp_relay_vty.c`, `udpfwd_vty.c` and `udpfwd_vty_utils.c` carry them out on the tables
`DHCP_Relay` and `UDP_Bcast_Forwarder_Server`. A row of a table is pointed to by its position.
-/

namespace IpApps
namespace Udpfwd
namespace Vty

open SourceInterface (PortRow addressMatches)

/-! ## What a command is given -/

/-- The interface a command is given for, `vty->index`, the Port table, the names in the VRF
table, and how the transaction fares. -/
structure Session where
  index : CString
  ports : List PortRow
  vrfs : List CString
  txn : Txn

/-- How a command ends: what it prints, what it returns, and the table it has committed. -/
structure Outcome (α : Type) where
  out : Option CString
  result : CmdResult
  written : Option α

/-- The command aborts its transaction. -/
def abort {α : Type} (out : String) (result : CmdResult) : Outcome α :=
  ⟨some out.toList, result, none⟩

/-- `cli_do_config_finish`. -/
def finish {α : Type} (txn : Txn) (table : α) : Outcome α :=
  if txn.committed then ⟨none, .success, some table⟩ else ⟨none, .ovsdbFailure, none⟩

/-- `MAX_HELPER_ADDRESSES_PER_INTERFACE`. -/
def maxHelperAddressesPerInterface : ℕ := 8

/-- `MAX_UDPFWD_SERVER_ADDRESSES_PER_INTERFACE`. -/
def maxUdpfwdServerAddressesPerInterface : ℕ := 8

/-! ## The helpers of both tables -/

/-- `find_udpfwd_server_ip`. The count of the servers is passed as an `int8_t`, which is enough
for the lists the commands make. -/
def findUdpfwdServerIp (servers : List CString) (ipAddr : CString) : Bool :=
  servers.any fun server => ipAddr = server

/-- The loop of `server_address_maxcount_reached`, over the port and the servers of each row. -/
def maxcountReached (maxAddresses : ℕ) (portname : CString) :
    ℕ → List (Option CString × List CString) → Bool
  | _, [] => false
  | entries, (port, servers) :: rows =>
    if port = some portname then
      if maxAddresses ≤ entries + servers.length then true
      else maxcountReached maxAddresses portname (entries + servers.length) rows
    else maxcountReached maxAddresses portname entries rows

/-- `udpfwd_serverupdate`: the servers it sets. -/
def udpfwdServerupdate (servers : List CString) (action : Bool) (ipAddr : CString) :
    List CString :=
  if action then servers ++ [ipAddr] else servers.filter fun server => ipAddr ≠ server

/-- `udp_bcast_config_vrf_lookup`. -/
def udpBcastConfigVrfLookup (vrfs : List CString) (vrfName : CString) : Option CString :=
  vrfs.find? fun name => name = vrfName

/-- The first port of a name. -/
def portOfName (ports : List PortRow) (name : CString) : Option PortRow :=
  ports.find? fun port => port.name = name

/-- `udpfwd_setcommoncolumn`: the port and the VRF it sets, if there is a default VRF. -/
def udpfwdSetcommoncolumn (defaultVrfName : CString) (vty : Session) :
    Option (Option CString × CString) :=
  (udpBcastConfigVrfLookup vty.vrfs defaultVrfName).map fun vrf =>
    ((portOfName vty.ports vty.index).map (·.name), vrf)

/-- The message of a command that finds no default VRF. -/
def noDefaultVrf : String := "Error: Could not fetch default VRF data."

/-! ## The relay table -/

section relay

variable (defaultVrfName : CString) (vty : Session) (rows : List DhcpRelayRow)

/-- `dhcp_relay_row_lookup`. -/
def dhcpRelayRowLookup (portname vrfName : CString) : Option (Fin rows.length) :=
  rows.findFinIdx? fun row => row.port = some portname ∧ row.vrf = some vrfName

/-- `server_address_maxcount_reached` for `DHCP_RELAY`. -/
def helperMaxcountReached (portname : CString) : Bool :=
  maxcountReached maxHelperAddressesPerInterface portname 0
    (rows.map fun row => (row.port, row.ipv4UcastServer))

/-- `udpfwd_serverupdate` on a row of `DHCP_Relay`. -/
def updateHelpers (i : Fin rows.length) (action : Bool) (ipAddr : CString) :
    List DhcpRelayRow :=
  rows.set i { rows[i] with
    ipv4UcastServer := udpfwdServerupdate rows[i].ipv4UcastServer action ipAddr }

/-- `dhcp_relay_helperaddressconfig`. -/
def dhcpRelayHelperaddressconfig (ipAddr : CString) (set : Bool) :
    Outcome (List DhcpRelayRow) :=
  if ¬ vty.txn.created then ⟨none, .ovsdbFailure, none⟩
  else
    let rowServ := dhcpRelayRowLookup rows vty.index defaultVrfName
    let isAddrMatch : Bool := match rowServ with
      | some i => findUdpfwdServerIp rows[i].ipv4UcastServer ipAddr
      | none => false
    if set then
      if helperMaxcountReached rows vty.index then
        abort "Maximum allowed helper addresses already configured on the interface." .success
      else
        match rowServ with
        | none =>
          -- the first helper address of the interface
          match udpfwdSetcommoncolumn defaultVrfName vty with
          | none => abort noDefaultVrf .ovsdbFailure
          | some (port, vrf) =>
            let inserted : DhcpRelayRow :=
              { port := port
                vrf := some vrf
                bootpGateway := none
                ipv4UcastServer := udpfwdServerupdate [] true ipAddr }
            finish vty.txn (rows ++ [inserted])
        | some i =>
          if ¬ isAddrMatch then finish vty.txn (updateHelpers rows i true ipAddr)
          else abort "This entry already exists." .success
    else
      match rowServ with
      | none => abort "Helper-address is not present." .success
      | some i =>
        if ¬ isAddrMatch then abort "Helper-address is not present." .success
        else if rows[i].ipv4UcastServer.length = 1 then
          match rows[i].bootpGateway with
          | none => finish vty.txn (rows.eraseIdx i)
          | some _ => finish vty.txn (updateHelpers rows i false ipAddr)
        else finish vty.txn (updateHelpers rows i false ipAddr)

/-- Whether the interface has the gateway address, as far as the command compares it. -/
def gatewayMatches (port : PortRow) (gatewayAddress : CString) : Bool :=
  port.ip4Address.any (addressMatches gatewayAddress) ||
    port.ip4AddressSecondary.any (addressMatches gatewayAddress)

/-- `smap_replace` or `smap_remove` on the gateway of a row. -/
def updateGateway (i : Fin rows.length) (bootpGateway : Option CString) : List DhcpRelayRow :=
  rows.set i { rows[i] with bootpGateway := bootpGateway }

/-- A message of `dhcp_relay_bootp_gateway_config`. -/
def gatewayMessage {α : Type} (before gatewayAddress : CString) (after : String) : Outcome α :=
  ⟨some (before ++ gatewayAddress ++ after.toList), .success, none⟩

/-- `dhcp_relay_bootp_gateway_config`. -/
def dhcpRelayBootpGatewayConfig (gatewayAddress : CString) (set : Bool) :
    Outcome (List DhcpRelayRow) :=
  if ¬ vty.txn.created then ⟨none, .ovsdbFailure, none⟩
  else
    let row := dhcpRelayRowLookup rows vty.index defaultVrfName
    if set then
      let portRow := portOfName vty.ports vty.index
      if ¬ portRow.any (gatewayMatches · gatewayAddress) then
        gatewayMessage "The IP address ".toList gatewayAddress
          " is not yet configured on this interface."
      else
        match row with
        | none =>
          match udpBcastConfigVrfLookup vty.vrfs defaultVrfName with
          | none => abort noDefaultVrf .ovsdbFailure
          | some vrf =>
            let inserted : DhcpRelayRow :=
              { port := portRow.map (·.name)
                vrf := some vrf
                bootpGateway := some gatewayAddress
                ipv4UcastServer := [] }
            finish vty.txn (rows ++ [inserted])
        | some i => finish vty.txn (updateGateway rows i (some gatewayAddress))
    else
      match row with
      | none =>
        gatewayMessage "The BOOTP Gateway ".toList gatewayAddress
          " is not configured on this interface."
      | some i =>
        if rows[i].bootpGateway = some gatewayAddress then
          if rows[i].ipv4UcastServer.length ≠ 0 then finish vty.txn (updateGateway rows i none)
          else finish vty.txn (rows.eraseIdx i)
        else
          gatewayMessage "The BOOTP Gateway ".toList gatewayAddress
            " is not configured on this interface."

end relay

/-- The row that the lookup points to. -/
theorem dhcpRelayRowLookup_spec {rows : List DhcpRelayRow} {portname vrfName : CString}
    {i : Fin rows.length} (h : dhcpRelayRowLookup rows portname vrfName = some i) :
    rows[i].port = some portname ∧ rows[i].vrf = some vrfName :=
  of_decide_eq_true (List.findFinIdx?_eq_some_iff.mp h).1

/-- A VRF of the table is found by its name. -/
theorem udpBcastConfigVrfLookup_of_mem {vrfs : List CString} {vrfName : CString}
    (h : vrfName ∈ vrfs) : udpBcastConfigVrfLookup vrfs vrfName = some vrfName := by
  unfold udpBcastConfigVrfLookup
  cases hfind : vrfs.find? fun name => name = vrfName with
  | none => exact absurd (List.find?_eq_none.mp hfind vrfName h) (by simp)
  | some name =>
    have hfound := List.find?_some hfind
    rw [of_decide_eq_true hfound]

/-- The port that is found has the name. -/
theorem portOfName_name {ports : List PortRow} {name : CString} {port : PortRow}
    (h : portOfName ports name = some port) : port.name = name := by
  unfold portOfName at h
  have hfound := List.find?_some h
  exact of_decide_eq_true hfound

/-! ## The forwarder table -/

section forwarder

variable (defaultVrfName : CString) (vty : Session) (rows : List UdpBcastForwarderRow)

/-- `udp_bcast_server_row_lookup`. -/
def udpBcastServerRowLookup (portname vrfName : CString) (udpPort : ℤ) :
    Option (Fin rows.length) :=
  rows.findFinIdx? fun row =>
    row.srcPort = some portname ∧ row.destVrf = some vrfName ∧ row.udpDport = udpPort

/-- `server_address_maxcount_reached` for `UDP_BCAST_FORWARDER`. -/
def forwarderMaxcountReached (portname : CString) : Bool :=
  maxcountReached maxUdpfwdServerAddressesPerInterface portname 0
    (rows.map fun row => (row.srcPort, row.ipv4UcastServer))

/-- `udpfwd_serverupdate` on a row of `UDP_Bcast_Forwarder_Server`. -/
def updateForwarders (i : Fin rows.length) (action : Bool) (ipAddr : CString) :
    List UdpBcastForwarderRow :=
  rows.set i { rows[i] with
    ipv4UcastServer := udpfwdServerupdate rows[i].ipv4UcastServer action ipAddr }

/-- `udpfwd_serverconfig`. -/
def udpfwdServerconfig (ipAddr : CString) (udpPort : ℤ) (set : Bool) :
    Outcome (List UdpBcastForwarderRow) :=
  if ¬ vty.txn.created then ⟨none, .ovsdbFailure, none⟩
  else
    let rowServ := udpBcastServerRowLookup rows vty.index defaultVrfName udpPort
    let isAddrMatch : Bool := match rowServ with
      | some i => findUdpfwdServerIp rows[i].ipv4UcastServer ipAddr
      | none => false
    if set then
      if forwarderMaxcountReached rows vty.index then
        ⟨some (ipAddr ++
          ": Entry not allowed as maximum entries per interface exceeded.".toList), .success,
          none⟩
      else
        match rowServ with
        | none =>
          -- the first server of the interface for the port
          match udpfwdSetcommoncolumn defaultVrfName vty with
          | none => abort noDefaultVrf .ovsdbFailure
          | some (port, vrf) =>
            let inserted : UdpBcastForwarderRow :=
              { srcPort := port
                destVrf := some vrf
                udpDport := udpPort
                ipv4UcastServer := udpfwdServerupdate [] true ipAddr }
            finish vty.txn (rows ++ [inserted])
        | some i =>
          if ¬ isAddrMatch then finish vty.txn (updateForwarders rows i true ipAddr)
          else abort "This entry already exists." .success
    else
      match rowServ with
      | none => abort "UDP forward-protocol is not present. " .success
      | some i =>
        if ¬ isAddrMatch then abort "No such entries are present. " .success
        else if rows[i].ipv4UcastServer.length = 1 then finish vty.txn (rows.eraseIdx i)
        else finish vty.txn (updateForwarders rows i false ipAddr)

end forwarder

end Vty
end Udpfwd
end IpApps
