import IpApps.Udpfwd.UniqueServers
import Mathlib.Data.Finset.Card

/-!
# Calls that go through

The conditions under which a call of a handler returns, and what the interfaces then show: the
servers of an interface as a set, and its gateway. A switch has so many interfaces at most that
the reference counts do not wrap.
-/

namespace IpApps
namespace Udpfwd

open ExceptLoops

/-! ## Counting servers -/

/-- At most `n` servers satisfy `P`. -/
def AtMost (n : ℕ) (P : ServerKey → Prop) : Prop :=
  ∃ F : Finset ServerKey, F.card ≤ n ∧ ∀ k, P k → k ∈ F

theorem AtMost.mono {n : ℕ} {P Q : ServerKey → Prop} (h : AtMost n P) (hsub : ∀ k, Q k → P k) :
    AtMost n Q := by
  obtain ⟨F, hcard, hF⟩ := h
  exact ⟨F, hcard, fun k hk => hF k (hsub k hk)⟩

theorem AtMost.le {m n : ℕ} {P : ServerKey → Prop} (h : AtMost m P) (hle : m ≤ n) :
    AtMost n P := by
  obtain ⟨F, hcard, hF⟩ := h
  exact ⟨F, Nat.le_trans hcard hle, hF⟩

theorem AtMost.union {m n : ℕ} {P Q : ServerKey → Prop} (hP : AtMost m P) (hQ : AtMost n Q) :
    AtMost (m + n) fun k => P k ∨ Q k := by
  obtain ⟨F, hF, hP⟩ := hP
  obtain ⟨G, hG, hQ⟩ := hQ
  refine ⟨F ∪ G, Nat.le_trans (Finset.card_union_le F G) (Nat.add_le_add hF hG), ?_⟩
  intro k hk
  rw [Finset.mem_union]
  exact hk.imp (hP k) (hQ k)

/-- Servers that are held once are as many as there are. -/
theorem AtMost.card_le {n : ℕ} {P : ServerKey → Prop} (h : AtMost n P)
    {held : Multiset ServerKey} (hnodup : held.Nodup) (hheld : ∀ k ∈ held, P k) :
    held.card ≤ n := by
  obtain ⟨F, hcard, hF⟩ := h
  refine Nat.le_trans ?_ hcard
  exact Finset.card_le_card
    (fun k hk => hF k (hheld k hk) : (⟨held, hnodup⟩ : Finset ServerKey) ⊆ F)

/-! ## A cache of few interfaces -/

/-- A cache in order that holds servers at the interfaces `ports` only, and no server twice at
one of them. -/
structure Within (ports : Finset CString) (s : State) : Prop where
  cache : ∃ c : Cache, c.state = s
  once : OnceHeld s
  ports : ∀ name, name ∉ ports → s.serversOf name = 0

section within

variable {ports : Finset CString} {s s' : State}

theorem Within.empty (hashInt : UInt32 → UInt32 → UInt32) :
    Within ports (State.empty hashInt) :=
  ⟨⟨Cache.empty hashInt, rfl⟩, fun _ => Multiset.nodup_zero, fun _ _ => rfl⟩

theorem Within.linked (h : Within ports s) : Linked s := by
  obtain ⟨c, rfl⟩ := h.cache
  exact c.inv.linked

/-- A server is used at most once at each interface. -/
theorem uses_le_card (hl : Linked s) (honce : OnceHeld s)
    (hports : ∀ name, name ∉ ports → s.serversOf name = 0) (k : ServerKey) :
    s.uses k ≤ ports.card := by
  rw [honce.uses_eq, State.interfacesWith, List.countP_eq_length_filter]
  have hnodup : s.names.Nodup := hl.names
  rw [← List.toFinset_card_of_nodup (hnodup.filter _)]
  apply Finset.card_le_card
  intro name hname
  rw [List.mem_toFinset, List.mem_filter, decide_eq_true_iff] at hname
  by_contra hnot
  rw [hports name hnot] at hname
  exact Multiset.notMem_zero k hname.2

/-- An edit at one of the interfaces, of servers that are held once, keeps the cache in order. -/
theorem Within.edited (h : Within ports s) (hfew : ports.card ≤ 65535) {call : HandlerCall}
    {e : RowEdit} (hedit : call.edit s = some e) (hrun : call.apply s = .ok s')
    (hname : e.portName ∈ ports) (hnodup : (e.kept + e.stored : Multiset ServerKey).Nodup) :
    Within ports s' := by
  obtain ⟨c, rfl⟩ := h.cache
  have hedited := HandlerCall.edited hedit hrun
  have hservers : ∀ name, name ≠ e.portName →
      s'.serversOf name = c.state.serversOf name := by
    intro name hne
    unfold State.serversOf
    rw [hedited.frame name hne]
  have honce : OnceHeld s' := by
    intro name
    by_cases hcase : name = e.portName
    · rw [hcase, hedited.servers]
      exact hnodup
    · rw [hservers name hcase]
      exact h.once name
  have hports : ∀ name, name ∉ ports → s'.serversOf name = 0 := by
    intro name hnot
    rw [hservers name fun heq => hnot (heq ▸ hname)]
    exact h.ports name hnot
  refine ⟨HandlerCall.next ?_ hrun, honce, hports⟩
  intro e' hedit' k _
  obtain rfl : e = e' := Option.some.inj (hedit.symm.trans hedit')
  -- the uses after the call are those of the other interfaces and the new ones
  have huses := uses_le_card hedited.linked honce hports k
  rw [hedited.linked.uses_split e.portName k,
    c.inv.linked.usesElsewhere_eq hedited.linked hedited.frame, hedited.servers] at huses
  exact Nat.le_trans huses hfew

/-- A call that deletes rows keeps the cache in order. -/
theorem Within.deleted (h : Within ports s) {call : HandlerCall} (hdeletes : call.Deletes)
    (hrun : call.apply s = .ok s') : Within ports s' := by
  obtain ⟨c, rfl⟩ := h.cache
  have hnone : call.edit c.state = none := by
    cases call with
    | dhcpRelayRowDelete rows => rfl
    | udpBcastForwarderRowDelete rows => rfl
    | dhcpRelayConfigChange rec modified => exact hdeletes.elim
    | udpBcastForwarderConfigChange rec => exact hdeletes.elim
  have hnext : ∃ c' : Cache, c'.state = s' := by
    refine HandlerCall.next (fun e hedit => ?_) hrun
    exact absurd (hnone.symm.trans hedit) (by simp)
  cases HandlerCall.outcome hrun with
  | edited e hedit _ => exact absurd (hnone.symm.trans hedit) (by simp)
  | unchanged hnot _ => exact absurd hdeletes hnot
  | deleted _ _ hle =>
    refine ⟨hnext, fun name => Multiset.nodup_of_le (hle name) (h.once name), ?_⟩
    intro name hname
    -- nothing is held where nothing was
    have hzero := hle name
    rw [h.ports name hname] at hzero
    exact Multiset.le_zero.mp hzero

end within

/-! ## Changed rows -/

/-- A config-change call returns if the arrays on the stack are not full and the node is not
freed with addresses left to store. The gateway is then the one asked for. -/
theorem Changes.of_fits {s : State} {portName : CString} {bootpGw : IpAddress}
    {gone : Multiset ServerKey} {addresses : List CString} {new : List ServerKey}
    {r : Except Fault State} (h : Changes s portName bootpGw gone addresses new r)
    (hgone : gone.card < maxUdpBcastServerPerInterface)
    (hlife : Emptied bootpGw (s.serversOf portName) gone → validAddresses addresses = [])
    (hnew : new.length < maxUdpBcastServerPerInterface) :
    ∃ s', r = .ok s' ∧ s'.bootpGwOf portName = bootpGw := by
  -- of the five ways the call can go, two end; the bounds and the lifetime rule out the others
  cases h with
  | manyGone hlen => exact absurd hlen (Nat.ne_of_lt hgone)
  | readFreed _ hempty hvalid => exact absurd (hlife hempty) hvalid
  | @freed s' _ hempty _ _ hnone _ _ =>
    refine ⟨s', rfl, ?_⟩
    rw [State.bootpGwOf, hnone]
    exact hempty.1.symm
  | manyNew _ _ hfull => exact absurd hnew (Nat.not_lt.mpr hfull)
  | @stored s' n ks _ _ _ _ hintf hgw _ _ _ _ =>
    refine ⟨s', rfl, ?_⟩
    rw [State.bootpGwOf, hintf]
    exact hgw

/-- Servers that fit into the array are all stored. -/
theorem storedServers_eq {kept : Multiset ServerKey} {addresses : List CString}
    {listed : IpAddress → ServerKey → Bool} {udpPort : UInt16}
    (hroom : (kept + newServers kept addresses listed udpPort : Multiset ServerKey).card
      ≤ maxUdpBcastServerPerInterface) :
    storedServers kept addresses listed udpPort = newServers kept addresses listed udpPort := by
  rw [Multiset.card_add, Multiset.coe_card] at hroom
  unfold storedServers
  rw [List.take_of_length_le]
  omega

/-- How a handler compares the addresses `ids` of a row on `udpPort` with the servers of its
interface: a server is kept on another port and with an address of the row, and an address is stored
if it is listed for no server that is kept. -/
structure Compares (held : Multiset ServerKey) (udpPort : UInt16) (ids : List IpAddress)
    (keep : ServerKey → Prop) (listed : IpAddress → ServerKey → Bool) : Prop where
  keep_iff : ∀ k, keep k ↔ k.2 ≠ udpPort ∨ k.1 ∈ ids
  listed_self : ∀ id, listed id (id, udpPort) = true
  /-- An address that is listed has its server. -/
  shared : ∀ id ∈ ids, (id, udpPort) ∈ held ∨ ∀ k ∈ held, ¬listed id k

section compared

variable {held : Multiset ServerKey} {udpPort : UInt16} {addresses : List CString}
variable {keep : ServerKey → Prop} [DecidablePred keep] {listed : IpAddress → ServerKey → Bool}

/-- What is kept and what is new have no server in common. -/
theorem Compares.nodup (h : Compares held udpPort (validAddresses addresses) keep listed)
    (hheld : held.Nodup) (hids : (validAddresses addresses).Nodup) :
    (held.filter keep + newServers (held.filter keep) addresses listed udpPort :
      Multiset ServerKey).Nodup := by
  rw [Multiset.nodup_add]
  refine ⟨hheld.filter _, ?_, ?_⟩
  · rw [Multiset.coe_nodup, newServers]
    refine List.Nodup.map ?_ (hids.filter _)
    intro id id' heq
    exact (Prod.mk.inj heq).1
  · rw [Multiset.disjoint_left]
    intro k hkept hnew
    obtain ⟨⟨_, hnot⟩, hport⟩ := mem_newServers.mp (Multiset.mem_coe.mp hnew)
    refine hnot k hkept ?_
    rw [← h.listed_self k.1, ← hport]

/-- The interface then holds the addresses of the row on its port, and what it held on others. -/
theorem Compares.mem_iff (h : Compares held udpPort (validAddresses addresses) keep listed)
    (k : ServerKey) :
    k ∈ (held.filter keep + newServers (held.filter keep) addresses listed udpPort :
        Multiset ServerKey) ↔
      (k.2 = udpPort ∧ k.1 ∈ validAddresses addresses) ∨ (k.2 ≠ udpPort ∧ k ∈ held) := by
  rw [Multiset.mem_add, Multiset.mem_coe, mem_newServers, Multiset.mem_filter, h.keep_iff]
  constructor
  · rintro (⟨hk, hport | hid⟩ | hk)
    · exact Or.inr ⟨hport, hk⟩
    · by_cases hcase : k.2 = udpPort
      · exact Or.inl ⟨hcase, hid⟩
      · exact Or.inr ⟨hcase, hk⟩
    · exact Or.inl ⟨hk.2, hk.1.1⟩
  · rintro (⟨hport, hid⟩ | ⟨hport, hk⟩)
    -- an address of the row is held on the port, or by no server at all
    · rcases h.shared k.1 hid with hold | hnone
      · rw [← hport] at hold
        exact Or.inl ⟨hold, Or.inr hid⟩
      · exact Or.inr ⟨⟨hid, fun k' hk' => hnone k' (Multiset.mem_filter.mp hk').1⟩, hport⟩
    · exact Or.inl ⟨hk, Or.inl hport⟩

end compared

section change

variable {ports : Finset CString} {s : State}

/-- A row that fits is carried out at its interface. -/
theorem Within.changed {c : Cache} (h : Within ports c.state) (hfew : ports.card ≤ 65535)
    (call : HandlerCall) {portName : CString} {bootpGw : IpAddress} {gone : Multiset ServerKey}
    {addresses : List CString} {udpPort : UInt16} {keep : ServerKey → Prop} [DecidablePred keep]
    {listed : IpAddress → ServerKey → Bool} (hname : portName ∈ ports)
    (hlen : addresses.length ≤ 8) (hids : (validAddresses addresses).Nodup)
    (hcompares : Compares (c.state.serversOf portName) udpPort (validAddresses addresses) keep
      listed)
    (hedit : call.edit c.state = some
      { portName, bootpGw, kept := (c.state.serversOf portName).filter keep
        addresses := validAddresses addresses
        stored := storedServers ((c.state.serversOf portName).filter keep) addresses listed
          udpPort })
    (hchanges : Changes c.state portName bootpGw gone addresses
      (newServers ((c.state.serversOf portName).filter keep) addresses listed udpPort)
      (call.apply c.state))
    (hgone : gone.card < maxUdpBcastServerPerInterface)
    (hlife : Emptied bootpGw (c.state.serversOf portName) gone → validAddresses addresses = [])
    (hroom : AtMost maxUdpBcastServerPerInterface fun k =>
      (k.2 = udpPort ∧ k.1 ∈ validAddresses addresses) ∨
        (k.2 ≠ udpPort ∧ k ∈ c.state.serversOf portName)) :
    ∃ s', call.apply c.state = .ok s' ∧ Within ports s' ∧ s'.bootpGwOf portName = bootpGw ∧
      (∀ k, k ∈ s'.serversOf portName ↔
        (k.2 = udpPort ∧ k.1 ∈ validAddresses addresses) ∨
          (k.2 ≠ udpPort ∧ k ∈ c.state.serversOf portName)) ∧
      ∀ other, other ≠ portName → s'.interface other = c.state.interface other := by
  have hnodup := hcompares.nodup (h.once portName) hids
  have hfull := hroom.card_le hnodup fun k hk => (hcompares.mem_iff k).mp hk
  obtain ⟨s', hrun, hgw⟩ := hchanges.of_fits hgone hlife
    (Nat.lt_of_le_of_lt (Nat.le_trans (length_newServers_le _ _ _ _) hlen) (by decide))
  -- with room for all of them, every new server is stored
  rw [storedServers_eq hfull] at hedit
  have hedited := HandlerCall.edited hedit hrun
  refine ⟨s', hrun, h.edited hfew hedit hrun hname hnodup, hgw, fun k => ?_, hedited.frame⟩
  rw [hedited.servers]
  exact hcompares.mem_iff k

/-- The relay handler on a row of which the servers are looked at. -/
structure RelayFits (s : State) (portName : CString) (bootpGw : IpAddress)
    (ids : List IpAddress) : Prop where
  /-- Not every slot holds a server whose address is not in the row. -/
  gone : AtMost 15 fun k => k ∈ s.serversOf portName ∧ k.1 ∉ ids
  /-- Something is left before the first address is stored. -/
  life : bootpGw = 0 → s.serversOf portName ≠ 0 →
    (∀ k ∈ s.serversOf portName, k.2 = dhcpsPort ∧ k.1 ∉ ids) → ids = []
  /-- A helper that is new has the address of no other server. -/
  shared : ∀ id ∈ ids, (id, dhcpsPort) ∈ s.serversOf portName ∨
    ∀ k ∈ s.serversOf portName, k.1 ≠ id
  room : AtMost maxUdpBcastServerPerInterface fun k =>
    (k.2 = dhcpsPort ∧ k.1 ∈ ids) ∨ (k.2 ≠ dhcpsPort ∧ k ∈ s.serversOf portName)

/-- A `DHCP_Relay` row is carried out at its interface. -/
theorem Within.dhcpRelayConfigChange (h : Within ports s) (hfew : ports.card ≤ 65535)
    {rec : DhcpRelayRow} {modified : DhcpRelayModified} {portName vrf : CString}
    (hport : rec.port = some portName) (hvrf : rec.vrf = some vrf) (hname : portName ∈ ports)
    (hlen : rec.ipv4UcastServer.length ≤ 8) (hids : (validAddresses rec.ipv4UcastServer).Nodup)
    (hfits : modified.ipv4UcastServer = true → RelayFits s portName
      (dhcpRelayBootpGw s rec modified portName) (validAddresses rec.ipv4UcastServer)) :
    ∃ s', udpfwdHandleDhcpRelayConfigChange s rec modified = .ok s' ∧ Within ports s' ∧
      s'.bootpGwOf portName = dhcpRelayBootpGw s rec modified portName ∧
      (∀ k, k ∈ s'.serversOf portName ↔
        if modified.ipv4UcastServer then
          (k.2 = dhcpsPort ∧ k.1 ∈ validAddresses rec.ipv4UcastServer) ∨
            (k.2 ≠ dhcpsPort ∧ k ∈ s.serversOf portName)
        else k ∈ s.serversOf portName) ∧
      ∀ other, other ≠ portName → s'.interface other = s.interface other := by
  obtain ⟨c, rfl⟩ := h.cache
  have hedit : (HandlerCall.dhcpRelayConfigChange rec modified).edit c.state
      = some (dhcpRelayEdit c.state rec modified portName) := by
    unfold HandlerCall.edit
    simp only [hport, hvrf]
  cases hmodified : modified.ipv4UcastServer with
  | false =>
    obtain ⟨p, s₁, n, hfor, -, hrun⟩ := dhcpRelayConfigChange_eq c modified hport hvrf
    rw [hmodified, Bool.not_false, if_pos rfl] at hrun
    have hedited := dhcpRelayConfigChange_edited hport hvrf hrun
    have hservers := hedited.servers
    simp only [dhcpRelayEdit, hmodified, Bool.false_eq_true, if_false, Multiset.coe_nil,
      add_zero] at hservers
    refine ⟨s₁, hrun, h.edited hfew hedit hrun hname ?_, ?_, ?_, hedited.frame⟩
    · simp only [dhcpRelayEdit, hmodified, Bool.false_eq_true, if_false, Multiset.coe_nil,
        add_zero]
      exact h.once portName
    · rw [← hfor.name, bootpGwOf_eq hfor.inv.linked hfor.node, hfor.name]
      exact hfor.gw
    · intro k
      rw [hservers]
      simp
  | true =>
    have hfits := hfits hmodified
    have hstale : ∀ k, dhcpRelayStale rec.ipv4UcastServer k = some k ↔
        ¬(k.2 ≠ dhcpsPort ∨ k.1 ∈ validAddresses rec.ipv4UcastServer) := by
      intro k
      rw [dhcpRelayStale_eq_some_iff, Prod.ext_iff]
      tauto
    have hcompares : Compares (c.state.serversOf portName) dhcpsPort
        (validAddresses rec.ipv4UcastServer)
        (fun k => k.2 ≠ dhcpsPort ∨ k.1 ∈ validAddresses rec.ipv4UcastServer)
        (fun id server => server.1 = id) :=
      ⟨fun _ => Iff.rfl, by simp, by simpa using hfits.shared⟩
    have hchanges := dhcpRelayConfigChange_changes c hport hvrf hmodified
    rw [sub_filterMap_eq_filter (dhcpRelayStale_idem _) hstale] at hchanges
    -- the servers to delete are as many as the servers with an address not in the row
    have hdrop : ∀ k, (dhcpRelayStale rec.ipv4UcastServer k).isSome ↔
        k.1 ∉ validAddresses rec.ipv4UcastServer := by
      intro k
      rw [Option.isSome_iff_exists]
      simp only [dhcpRelayStale_eq_some_iff]
      exact ⟨fun hcase => hcase.choose_spec.1, fun hk => ⟨_, hk, rfl⟩⟩
    simp only [if_true]
    refine h.changed hfew (.dhcpRelayConfigChange rec modified) hname hlen hids hcompares
      ?_ hchanges ?_ ?_ hfits.room
    · rw [hedit]
      unfold dhcpRelayEdit
      simp only [hmodified, if_true]
    · rw [card_filterMap_eq hdrop]
      refine Nat.lt_succ_of_le (hfits.gone.card_le ((h.once portName).filter _) ?_)
      exact fun k hk => Multiset.mem_filter.mp hk
    · intro hempty
      refine hfits.life hempty.1 hempty.2.1 fun k hk => ?_
      have hall := (sub_filterMap_eq_zero_iff (dhcpRelayStale_idem _)).mp hempty.2.2 k hk
      have hk' := (hstale k).mp hall
      tauto

/-- The forwarder handler on a row with a port number. -/
structure ForwarderFits (s : State) (portName : CString) (udpPort : UInt16)
    (ids : List IpAddress) : Prop where
  gone : AtMost 15 fun k => k ∈ s.serversOf portName ∧ k.2 = udpPort ∧ k.1 ∉ ids
  life : s.bootpGwOf portName = 0 → s.serversOf portName ≠ 0 →
    (∀ k ∈ s.serversOf portName, k.2 = udpPort ∧ k.1 ∉ ids) → ids = []
  room : AtMost maxUdpBcastServerPerInterface fun k =>
    (k.2 = udpPort ∧ k.1 ∈ ids) ∨ (k.2 ≠ udpPort ∧ k ∈ s.serversOf portName)

/-- A `UDP_Bcast_Forwarder_Server` row is carried out at its interface. -/
theorem Within.udpBcastForwarderConfigChange (h : Within ports s) (hfew : ports.card ≤ 65535)
    {rec : UdpBcastForwarderRow} {portName vrf : CString} {udpPort : UInt16}
    (hport : rec.srcPort = some portName) (hvrf : rec.destVrf = some vrf)
    (hname : portName ∈ ports) (hdport : rec.udpDport = udpPort.toNat)
    (hlen : rec.ipv4UcastServer.length ≤ 8) (hids : (validAddresses rec.ipv4UcastServer).Nodup)
    (hfits : ForwarderFits s portName udpPort (validAddresses rec.ipv4UcastServer)) :
    ∃ s', udpfwdHandleUdpBcastForwarderConfigChange s rec = .ok s' ∧ Within ports s' ∧
      s'.bootpGwOf portName = s.bootpGwOf portName ∧
      (∀ k, k ∈ s'.serversOf portName ↔
        (k.2 = udpPort ∧ k.1 ∈ validAddresses rec.ipv4UcastServer) ∨
          (k.2 ≠ udpPort ∧ k ∈ s.serversOf portName)) ∧
      ∀ other, other ≠ portName → s'.interface other = s.interface other := by
  obtain ⟨c, rfl⟩ := h.cache
  have hedit : (HandlerCall.udpBcastForwarderConfigChange rec).edit c.state
      = some (udpBcastForwarderEdit c.state rec portName) := by
    unfold HandlerCall.edit
    simp only [hport, hvrf]
  have hportiff : ∀ k : ServerKey, (k.2.toNat : ℤ) = rec.udpDport ↔ k.2 = udpPort := by
    intro k
    rw [hdport, Nat.cast_inj, UInt16.toNat_inj]
  have hstored : UInt16.ofNat (rec.udpDport % 65536).toNat = udpPort := by
    have hlt := udpPort.toNat_lt
    have hmod : (rec.udpDport % 65536).toNat = udpPort.toNat := by omega
    rw [hmod]
    exact UInt16.ofNat_toNat
  have hstale : ∀ k, udpBcastForwarderStale rec.udpDport rec.ipv4UcastServer k = some k ↔
      k.2 = udpPort ∧ k.1 ∉ validAddresses rec.ipv4UcastServer := by
    intro k
    rw [udpBcastForwarderStale_eq_some_iff, hportiff]
    tauto
  have hkeep : ∀ k, udpBcastForwarderStale rec.udpDport rec.ipv4UcastServer k = some k ↔
      ¬((k.2.toNat : ℤ) ≠ rec.udpDport ∨ k.1 ∈ validAddresses rec.ipv4UcastServer) := by
    intro k
    rw [hstale, ← hportiff]
    tauto
  have hidem := udpBcastForwarderStale_idem rec.udpDport rec.ipv4UcastServer
  have hcompares : Compares (c.state.serversOf portName) udpPort
      (validAddresses rec.ipv4UcastServer)
      (fun k => (k.2.toNat : ℤ) ≠ rec.udpDport ∨ k.1 ∈ validAddresses rec.ipv4UcastServer)
      (fun id server => server.1 = id ∧ server.2.toNat = rec.udpDport) := by
    refine ⟨fun k => by rw [ne_eq, hportiff], fun id => ?_, fun id _ => ?_⟩
    · simp [hdport]
    · by_cases hk : (id, udpPort) ∈ c.state.serversOf portName
      · exact Or.inl hk
      · refine Or.inr fun k hheld hsame => hk ?_
        rw [decide_eq_true_iff, hportiff] at hsame
        rwa [← hsame.1, ← hsame.2]
  have hchanges := udpBcastForwarderConfigChange_changes c hport hvrf
  rw [sub_filterMap_eq_filter hidem hkeep, hstored] at hchanges
  have hdrop : ∀ k, (udpBcastForwarderStale rec.udpDport rec.ipv4UcastServer k).isSome ↔
      k.2 = udpPort ∧ k.1 ∉ validAddresses rec.ipv4UcastServer := by
    intro k
    rw [Option.isSome_iff_exists]
    simp only [udpBcastForwarderStale_eq_some_iff, hportiff]
    exact ⟨fun hcase => ⟨hcase.choose_spec.1, hcase.choose_spec.2.1⟩,
      fun hk => ⟨k, hk.1, hk.2, rfl⟩⟩
  refine h.changed hfew (.udpBcastForwarderConfigChange rec) hname hlen hids hcompares
    ?_ hchanges ?_ ?_ hfits.room
  · rw [hedit]
    unfold udpBcastForwarderEdit
    rw [hstored]
  · rw [card_filterMap_eq hdrop]
    refine Nat.lt_succ_of_le (hfits.gone.card_le ((h.once portName).filter _) ?_)
    exact fun k hk => Multiset.mem_filter.mp hk
  · intro hempty
    refine hfits.life hempty.1 hempty.2.1 fun k hk => ?_
    exact (hstale k).mp ((sub_filterMap_eq_zero_iff hidem).mp hempty.2.2 k hk)

end change

/-! ## Deleted rows -/

section delete

variable {ports : Finset CString} {s : State}

/-- Without a row an interface loses its helpers and its gateway. A row that is named by a
prefix of its name is taken for its row. -/
theorem Within.dhcpRelayRowDelete (h : Within ports s) (rows : List DhcpRelayRow)
    (hhelpers : ∀ name, AtMost 15 fun k => k ∈ s.serversOf name ∧ k.2 = dhcpsPort) :
    ∃ s', udpfwdHandleDhcpRelayRowDelete s rows = .ok s' ∧ Within ports s' ∧
      ∀ name, (DhcpRelayPrefixRow rows name → s'.interface name = s.interface name) ∧
        (¬DhcpRelayPrefixRow rows name →
          s'.serversOf name = (s.serversOf name).filter (fun k => ¬k.2 = dhcpsPort) ∧
          s'.bootpGwOf name = 0) := by
  have hwithin := h
  obtain ⟨c, rfl⟩ := h.cache
  have hl := c.inv.linked
  obtain ⟨s', hrun, hw, hlocal⟩ := dhcpRelayRowDelete_walk rows c (by
    rintro e he ⟨_, hfull⟩
    obtain ⟨n, hp, hname⟩ := (hl.listed e.1 e.2).mp he
    have hcard := (hhelpers n.portName).card_le
      ((h.once n.portName).filter fun k => k.2 = dhcpsPort)
      fun k hk => Multiset.mem_filter.mp hk
    rw [card_filter_serversOf hl hp] at hcard
    have hfull' : ((c.state.keysAt e.2).filter fun k => k.2 = dhcpsPort).length = 16 := hfull
    omega)
  have hdeletes : HandlerCall.Deletes (.dhcpRelayRowDelete rows) := trivial
  refine ⟨s', hrun, hwithin.deleted hdeletes hrun, ?_⟩
  exact dhcpRelayRowDelete_interface rows c hw hlocal

/-- A forward-protocol server goes if the handler finds no row that it takes for its row. -/
theorem Within.udpBcastForwarderRowDelete (h : Within ports s) (rows : List UdpBcastForwarderRow)
    (hservers : ∀ name, AtMost 15 fun k => k ∈ s.serversOf name ∧ k.2 ≠ dhcpsPort) :
    ∃ s', udpfwdHandleUdpBcastForwarderRowDelete s rows = .ok s' ∧ Within ports s' ∧
      ∀ name,
        s'.serversOf name
          = (s.serversOf name).filter (fun k => ¬UdpBcastForwarderOrphan rows name k) ∧
        s'.bootpGwOf name = s.bootpGwOf name := by
  have hwithin := h
  obtain ⟨c, rfl⟩ := h.cache
  have hl := c.inv.linked
  obtain ⟨s', hrun, _, _, hintf⟩ := udpBcastForwarderRowDelete_walk rows c (by
    intro e he hfull
    obtain ⟨n, hp, hname⟩ := (hl.listed e.1 e.2).mp he
    have hcard := (hservers n.portName).card_le
      ((h.once n.portName).filter (UdpBcastForwarderOrphan rows e.1))
      fun k hk => ⟨(Multiset.mem_filter.mp hk).1, (Multiset.mem_filter.mp hk).2.1⟩
    rw [card_filter_serversOf hl hp] at hcard
    have hfull' :
        ((c.state.keysAt e.2).filter (UdpBcastForwarderOrphan rows e.1)).length = 16 := hfull
    omega)
  have hdeletes : HandlerCall.Deletes (.udpBcastForwarderRowDelete rows) := trivial
  exact ⟨s', hrun, hwithin.deleted hdeletes hrun, hintf⟩

end delete

end Udpfwd
end IpApps
