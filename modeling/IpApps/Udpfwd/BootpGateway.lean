import IpApps.SourceInterface.ConfiguredSources
import IpApps.Udpfwd.ServerCommands

/-!
# Which gateways an interface accepts

`dhcp_relay_bootp_gateway_config` looks at every address of the interface, and compares as many
characters of the gateway as the address has before its mask. So it accepts a gateway that only
begins with an address of the interface.
-/

namespace IpApps
namespace Udpfwd
namespace Vty

open SourceInterface (PortRow hostPart addressMatches_iff)

/-- A gateway is set on an interface that has a port row, in a transaction that commits. -/
structure GatewaySetting (defaultVrfName : CString) where
  vty : Session
  port : PortRow
  portOfName_eq : portOfName vty.ports vty.index = some port
  masked : ∀ address ∈ port.addresses, '/' ∈ address
  hasVrf : defaultVrfName ∈ vty.vrfs
  txn_eq : vty.txn = committedTxn

namespace GatewaySetting

variable {defaultVrfName : CString} (s : GatewaySetting defaultVrfName)

/-- The interface has the address. -/
def Owns (gatewayAddress : CString) : Prop :=
  ∃ address ∈ s.port.addresses, hostPart address = gatewayAddress

/-- The table that is committed, if any. -/
def written (rows : List DhcpRelayRow) (gatewayAddress : CString) : Option (List DhcpRelayRow) :=
  (dhcpRelayBootpGatewayConfig defaultVrfName s.vty rows gatewayAddress true).written

/-- A row of the interface holds the gateway. -/
def Stored (rows : List DhcpRelayRow) (gatewayAddress : CString) : Prop :=
  ∃ row ∈ rows, row.port = some s.vty.index ∧ row.vrf = some defaultVrfName ∧
    row.bootpGateway = some gatewayAddress

/-- The gateway is stored if the interface has it, and the table left as it is otherwise. -/
structure StoresOwned (rows : List DhcpRelayRow) (gatewayAddress : CString) : Prop where
  stores : s.Owns gatewayAddress →
    ∃ rows', s.written rows gatewayAddress = some rows' ∧ s.Stored rows' gatewayAddress
  leaves : ¬s.Owns gatewayAddress → s.written rows gatewayAddress = none

variable {s} {rows : List DhcpRelayRow} {gatewayAddress : CString}

theorem gatewayMatches_iff :
    gatewayMatches s.port gatewayAddress = true ↔
      ∃ address ∈ s.port.addresses, hostPart address <+: gatewayAddress := by
  have hmatches : ∀ address ∈ s.port.addresses,
      SourceInterface.addressMatches gatewayAddress address = true ↔
        hostPart address <+: gatewayAddress := fun address haddress =>
    addressMatches_iff (s.masked address haddress)
  have hany : gatewayMatches s.port gatewayAddress
      = s.port.addresses.any (SourceInterface.addressMatches gatewayAddress) := by
    unfold gatewayMatches PortRow.addresses
    rw [List.any_append]
    cases s.port.ip4Address with
    | none => rfl
    | some address => simp
  rw [hany, List.any_eq_true]
  exact exists_congr fun address => and_congr_right (hmatches address)

/-- Where no address matches, the command aborts. -/
theorem written_eq_none (h : gatewayMatches s.port gatewayAddress = false) :
    s.written rows gatewayAddress = none := by
  unfold written dhcpRelayBootpGatewayConfig
  rw [s.portOfName_eq, s.txn_eq]
  simp [committedTxn, h, gatewayMessage]

/-- Where an address matches, the gateway is stored in the row of the interface, or in a new
one. -/
theorem written_eq_some (h : gatewayMatches s.port gatewayAddress = true) :
    s.written rows gatewayAddress = some
      (match dhcpRelayRowLookup rows s.vty.index defaultVrfName with
      | none => rows ++ [⟨some s.vty.index, some defaultVrfName, some gatewayAddress, []⟩]
      | some i => updateGateway rows i (some gatewayAddress)) := by
  unfold written dhcpRelayBootpGatewayConfig
  rw [s.portOfName_eq, s.txn_eq, udpBcastConfigVrfLookup_of_mem s.hasVrf]
  simp only [committedTxn, h, Option.any_some, Option.map_some, portOfName_name s.portOfName_eq]
  cases dhcpRelayRowLookup rows s.vty.index defaultVrfName with
  | none => rfl
  | some i => rfl

theorem written_stored (h : gatewayMatches s.port gatewayAddress = true) :
    ∃ rows', s.written rows gatewayAddress = some rows' ∧ s.Stored rows' gatewayAddress := by
  refine ⟨_, written_eq_some h, ?_⟩
  cases hrow : dhcpRelayRowLookup rows s.vty.index defaultVrfName with
  | none => exact ⟨_, List.mem_append_right _ (List.mem_singleton_self _), rfl, rfl, rfl⟩
  | some i =>
    have hspec := dhcpRelayRowLookup_spec hrow
    exact ⟨_, List.mem_set i.isLt _, hspec.1, hspec.2, rfl⟩

/-- The command stores the gateways that the interface owns exactly if an address of the
interface is the beginning of the gateway only where the interface has the gateway as well. -/
theorem storesOwned_iff (s : GatewaySetting defaultVrfName) (rows : List DhcpRelayRow)
    (gatewayAddress : CString) :
    s.StoresOwned rows gatewayAddress ↔
      ∀ address ∈ s.port.addresses, hostPart address <+: gatewayAddress →
        hostPart address ≠ gatewayAddress → s.Owns gatewayAddress := by
  constructor
  · intro h address haddress hbegins _
    by_contra howns
    have hmatch := gatewayMatches_iff.mpr ⟨address, haddress, hbegins⟩
    have ⟨rows', hwritten, _⟩ : ∃ rows', s.written rows gatewayAddress = some rows' ∧
        s.Stored rows' gatewayAddress := written_stored hmatch
    rw [h.leaves howns] at hwritten
    exact absurd hwritten nofun
  · intro h
    constructor
    · rintro ⟨address, haddress, heq⟩
      exact written_stored (gatewayMatches_iff.mpr ⟨address, haddress, heq ▸ List.prefix_rfl⟩)
    · intro howns
      apply written_eq_none
      rw [Bool.eq_false_iff, Ne, gatewayMatches_iff]
      rintro ⟨address, haddress, hbegins⟩
      by_cases heq : hostPart address = gatewayAddress
      · exact howns ⟨address, haddress, heq⟩
      · exact howns (h address haddress hbegins heq)

end GatewaySetting

/-- Interface 1 with the address 10.0.0.1. -/
def tenNet : GatewaySetting "vrf".toList where
  vty := ⟨['1'], [⟨['1'], some "10.0.0.1/24".toList, []⟩], ["vrf".toList], committedTxn⟩
  port := ⟨['1'], some "10.0.0.1/24".toList, []⟩
  portOfName_eq := rfl
  masked := by decide
  hasVrf := by decide
  txn_eq := rfl

/-- The interface accepts 10.0.0.10. -/
theorem tenNet_stores :
    ¬∀ gatewayAddress, tenNet.StoresOwned [] gatewayAddress := by
  intro h
  have hleaves := (h "10.0.0.10".toList).leaves (by
    rintro ⟨address, haddress, heq⟩
    rw [List.mem_singleton.mp haddress] at heq
    exact absurd heq (by decide))
  exact absurd hleaves (by decide)

end Vty
end Udpfwd
end IpApps
