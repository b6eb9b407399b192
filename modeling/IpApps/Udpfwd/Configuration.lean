import IpApps.InetAgreement
import IpApps.Udpfwd.HandlerEffects
import IpApps.Udpfwd.ServerRuns

/-!
# What the tables configure

The rows of `DHCP_Relay` and `UDP_Bcast_Forwarder_Server` stand for a set of servers and a
gateway at every interface. A cache agrees with a configuration if its interfaces show these
servers and no others, and these gateways.
-/

namespace IpApps
namespace Udpfwd

open Vty

/-! ## Configurations -/

/-- The entries of both tables. -/
structure Config where
  relay : Entries Unit
  forwarder : Entries ℤ

/-- An address of the entry, as the daemon reads it. -/
def Lists {ι : Type} (g : Entries ι) (name : CString) (i : ι) (id : IpAddress) : Prop :=
  ∃ server ∈ (g (name, i)).1, serverAddress server = some id

namespace Config

variable (g : Config) (name : CString)

/-- The servers of an interface: its helper addresses, on `DHCPS_PORT`, and its forward-protocol
servers on the other ports. -/
def Serves (k : ServerKey) : Prop :=
  (k.2 = dhcpsPort ∧ Lists g.relay name () k.1) ∨
    (k.2 ≠ dhcpsPort ∧ Lists g.forwarder name k.2.toNat k.1)

/-- The gateway of an interface, 0 without one. -/
def gateway : IpAddress := ((g.relay (name, ())).2.bind serverAddress).getD 0

/-- Empty tables. -/
def empty : Config := ⟨fun _ => (∅, none), fun _ => (∅, none)⟩

theorem serves_helper {id : IpAddress} :
    g.Serves name (id, dhcpsPort) ↔ Lists g.relay name () id := by
  unfold Serves
  simp

variable {g name} in
theorem serves_forward {k : ServerKey} (hport : k.2 ≠ dhcpsPort) :
    g.Serves name k ↔ Lists g.forwarder name k.2.toNat k.1 := by
  unfold Serves
  simp [hport]

/-- Configurations of the interfaces `ports`, with port numbers that the daemon can store and
gateways that denote an address. -/
structure Proper (ports : Finset CString) : Prop where
  relay : ∀ name, name ∉ ports → g.relay (name, ()) = (∅, none)
  forwarder : ∀ name i, name ∉ ports → (g.forwarder (name, i)).1 = ∅
  number : ∀ name i, (g.forwarder (name, i)).1 ≠ ∅ →
    ∃ udpPort : UInt16, i = udpPort.toNat ∧ udpPort ≠ dhcpsPort
  gateways : ∀ name gw, (g.relay (name, ())).2 = some gw → (serverAddress gw).isSome

end Config

/-- The servers and the gateway of an interface. -/
def State.shown (s : State) (name : CString) : Multiset ServerKey × IpAddress :=
  (s.serversOf name, s.bootpGwOf name)

/-- An interface shows these servers and this gateway. -/
structure Shows (v : Multiset ServerKey × IpAddress) (servers : ServerKey → Prop)
    (bootpGw : IpAddress) : Prop where
  mem : ∀ k, k ∈ v.1 ↔ servers k
  gateway : v.2 = bootpGw

/-- The cache shows what is configured. -/
def Agrees (s : State) (g : Config) : Prop :=
  ∀ name, Shows (s.shown name) (g.Serves name) (g.gateway name)

theorem shown_of_interface {s s' : State} {name : CString}
    (hsame : s'.interface name = s.interface name) : s'.shown name = s.shown name := by
  unfold State.shown State.serversOf State.bootpGwOf
  rw [hsame]

theorem not_serves_empty (name : CString) (k : ServerKey) : ¬Config.empty.Serves name k := by
  rintro (⟨_, server, hserver, _⟩ | ⟨_, server, hserver, _⟩)
  · exact Finset.notMem_empty server hserver
  · exact Finset.notMem_empty server hserver

theorem agrees_empty (hashInt : UInt32 → UInt32 → UInt32) :
    Agrees (State.empty hashInt) Config.empty :=
  fun name => ⟨fun k => iff_of_false (Multiset.notMem_zero k) (not_serves_empty name k), rfl⟩

/-! ## The rows of a configuration -/

theorem serverAddress_of_inetPton {server : CString} {id : IpAddress}
    (h : Libc.inetPton server = some id) :
    serverAddress server = if id = 0 then none else some id := by
  unfold serverAddress
  rw [Libc.inetAton_of_inetPton h]

namespace Vty

section rows

open ServerRow

variable {α ι : Type} [ServerRow α ι] {defaultVrfName : CString} {rows : List α} {g : Entries ι}
  {name : CString} {i : ι} {row : α}

/-- Two strings that the commands accept denote different addresses. -/
theorem TableInv.address_inj (h : TableInv defaultVrfName rows g) {server other : CString}
    {id : IpAddress} (hserver : server ∈ (g (name, i)).1) (hother : other ∈ (g (name, i)).1)
    (hs : serverAddress server = some id) (ho : serverAddress other = some id) :
    server = other := by
  have ⟨a, ha⟩ := Option.isSome_iff_exists.mp (h.accepted _ _ hserver)
  have ⟨b, hb⟩ := Option.isSome_iff_exists.mp (h.accepted _ _ hother)
  rw [serverAddress_of_inetPton ha, Option.ite_none_left_eq_some, Option.some.injEq] at hs
  rw [serverAddress_of_inetPton hb, Option.ite_none_left_eq_some, Option.some.injEq] at ho
  rw [hs.2] at ha
  rw [ho.2] at hb
  exact Libc.inetPton_inj ha hb

/-- The addresses of the row of an interface. -/
theorem TableInv.mem_servers_iff (h : TableInv defaultVrfName rows g) (hrow : row ∈ rows)
    (hkey : rowKey row = interfaceKey defaultVrfName name i) {server : CString} :
    server ∈ servers row ↔ server ∈ (g (name, i)).1 := by
  have hvalue : (servers row : Multiset CString) = (g (name, i)).1.val :=
    (Prod.mk.inj (h.holds.value_of_key hrow hkey)).1
  rw [← Finset.mem_val, ← hvalue]
  exact Iff.rfl

theorem TableInv.mem_validAddresses (h : TableInv defaultVrfName rows g) (hrow : row ∈ rows)
    (hkey : rowKey row = interfaceKey defaultVrfName name i) {id : IpAddress} :
    id ∈ validAddresses (servers row) ↔ Lists g name i id := by
  rw [validAddresses, List.mem_filterMap]
  constructor
  · rintro ⟨server, hserver, hid⟩
    exact ⟨server, (h.mem_servers_iff hrow hkey).mp hserver, hid⟩
  · rintro ⟨server, hserver, hid⟩
    exact ⟨server, (h.mem_servers_iff hrow hkey).mpr hserver, hid⟩

/-- The addresses of a row are different ones. -/
theorem TableInv.nodup_validAddresses (h : TableInv defaultVrfName rows g) (hrow : row ∈ rows) :
    (validAddresses (servers row)).Nodup := by
  have ⟨name, hkey, _⟩ := h.holds.row hrow
  unfold validAddresses List.Nodup
  rw [List.pairwise_filterMap]
  refine List.Pairwise.imp_of_mem ?_ (h.holds.servers_nodup hrow)
  intro server other hserver hother hne id hid id' hid' heq
  exact hne (h.address_inj ((h.mem_servers_iff hrow hkey).mp hserver)
    ((h.mem_servers_iff hrow hkey).mp hother) hid (heq ▸ hid'))

/-- The addresses of an interface are those of its rows. -/
theorem TableInv.length_le (h : TableInv defaultVrfName rows g) (hrow : row ∈ rows) :
    (servers row).length ≤ 8 := by
  have ⟨name, hkey, _⟩ := h.holds.row hrow
  have htotal := h.total_le name
  rw [addressTotal_eq_sum] at htotal
  refine Nat.le_trans (List.le_sum_of_mem (List.mem_map.mpr ⟨row, ?_, rfl⟩)) htotal
  exact List.mem_filter.mpr ⟨hrow, decide_eq_true (Prod.mk.inj hkey).1⟩

/-- A row for an entry with an address or a gateway. -/
theorem TableInv.exists_row (h : TableInv defaultVrfName rows g) (hne : g (name, i) ≠ (∅, none)) :
    ∃ row ∈ rows, rowKey row = interfaceKey defaultVrfName name i := by
  by_contra hnone
  refine hne (h.holds.entry_of_free fun row hrow hkey => hnone ⟨row, hrow, hkey⟩)

theorem TableInv.exists_row_of_lists (h : TableInv defaultVrfName rows g) {id : IpAddress}
    (hid : Lists g name i id) :
    ∃ row ∈ rows, rowKey row = interfaceKey defaultVrfName name i ∧
      id ∈ validAddresses (servers row) := by
  have hne : g (name, i) ≠ (∅, none) := by
    intro hempty
    obtain ⟨server, hserver, _⟩ := hid
    rw [hempty] at hserver
    exact Finset.notMem_empty server hserver
  obtain ⟨row, hrow, hkey⟩ := h.exists_row hne
  exact ⟨row, hrow, hkey, (h.mem_validAddresses hrow hkey).mpr hid⟩

/-- An entry that has a row is not empty. -/
theorem TableInv.entry_ne (h : TableInv defaultVrfName rows g) (hrow : row ∈ rows)
    (hkey : rowKey row = interfaceKey defaultVrfName name i) : g (name, i) ≠ (∅, none) := by
  intro hempty
  have hvalue := h.holds.value_of_key hrow hkey
  rw [hempty] at hvalue
  exact (h.holds.value hrow).2 hvalue

/-- Rows stand for one configuration. -/
theorem TableInv.unique {g' : Entries ι} (h : TableInv defaultVrfName rows g)
    (h' : TableInv defaultVrfName rows g') : g = g' := by
  funext ⟨name, i⟩
  by_cases hrow : ∃ row ∈ rows, rowKey row = interfaceKey defaultVrfName name i
  · obtain ⟨row, hrow, hkey⟩ := hrow
    have hvalue := (h.holds.value_of_key hrow hkey).symm.trans (h'.holds.value_of_key hrow hkey)
    rw [Prod.mk.injEq, Finset.val_inj] at hvalue
    exact Prod.ext hvalue.1 hvalue.2
  · have hfree : ∀ row ∈ rows, rowKey row ≠ interfaceKey defaultVrfName name i :=
      fun row hmem hkey => hrow ⟨row, hmem, hkey⟩
    exact (h.holds.entry_of_free hfree).trans (h'.holds.entry_of_free hfree).symm

/-- At most eight servers of an interface, whatever the index. -/
theorem TableInv.atMost (h : TableInv defaultVrfName rows g) (port : ι → UInt16)
    (name : CString) : AtMost 8 fun k => ∃ i, k.2 = port i ∧ Lists g name i k.1 := by
  let keys : List ServerKey := (rows.filter fun row => ServerRow.port row = some name).flatMap
    fun row => (validAddresses (servers row)).map fun id => (id, port (index row))
  refine ⟨keys.toFinset, ?_, ?_⟩
  · have htotal := h.total_le name
    rw [addressTotal_eq_sum] at htotal
    refine Nat.le_trans (List.toFinset_card_le keys) (Nat.le_trans ?_ htotal)
    rw [List.length_flatMap]
    refine List.sum_le_sum fun row _ => ?_
    rw [List.length_map]
    exact List.length_filterMap_le _ _
  · rintro ⟨id, udpPort⟩ ⟨i, hport, hid⟩
    obtain ⟨row, hrow, hkey, hmem⟩ := h.exists_row_of_lists hid
    have hindex : index row = i := (Prod.mk.inj (Prod.mk.inj hkey).2).2
    rw [List.mem_toFinset, List.mem_flatMap]
    refine ⟨row, List.mem_filter.mpr ⟨hrow, decide_eq_true (Prod.mk.inj hkey).1⟩, ?_⟩
    rw [List.mem_map]
    exact ⟨id, hmem, by rw [hindex]; exact Prod.ext rfl hport.symm⟩

end rows

end Vty

/-- The helpers of an interface are eight at most. -/
theorem atMost_helpers {defaultVrfName : CString} {rows : List DhcpRelayRow} {g : Entries Unit}
    (h : TableInv defaultVrfName rows g) (name : CString) :
    AtMost 8 fun k => k.2 = dhcpsPort ∧ Lists g name () k.1 :=
  (h.atMost (fun _ => dhcpsPort) name).mono fun _ hk => ⟨(), hk⟩

/-- So are its forward-protocol servers, over all ports. -/
theorem atMost_forwarders {defaultVrfName : CString} {rows : List UdpBcastForwarderRow}
    {g : Entries ℤ} (h : TableInv defaultVrfName rows g) (name : CString) :
    AtMost 8 fun k => k.2 ≠ dhcpsPort ∧ Lists g name k.2.toNat k.1 := by
  refine (h.atMost (fun i => UInt16.ofNat i.toNat) name).mono fun k hk => ⟨k.2.toNat, ?_, hk.2⟩
  rw [Int.toNat_natCast, UInt16.ofNat_toNat]

end Udpfwd
end IpApps
