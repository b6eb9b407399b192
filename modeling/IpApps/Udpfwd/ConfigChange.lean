import IpApps.Udpfwd.Interfaces
import Mathlib.Algebra.Order.Group.Multiset
import Mathlib.Data.Multiset.Basic
import Mathlib.Data.Multiset.OrderedMonoid

/-!
# Changed rows

What the two config-change handlers do to the interface of their row, and when that is
what the row asks for.
-/

namespace IpApps
namespace Udpfwd

open ExceptLoops

/-! ## The two handlers by the servers they delete and add -/

/-- What a handler makes of the interface `portName`, whose gateway is `bootpGw` when the
servers are replaced. -/
inductive Changes (s : State) (portName : CString) (bootpGw : IpAddress)
    (gone : Multiset ServerKey) (addresses : List CString) (new : List ServerKey) :
    Except Fault State → Prop
  | manyGone : gone.card = maxUdpBcastServerPerInterface →
      Changes s portName bootpGw gone addresses new (.error .scratchBounds)
  | readFreed : gone.card < maxUdpBcastServerPerInterface →
      Emptied bootpGw (s.serversOf portName) gone → validAddresses addresses ≠ [] →
      Changes s portName bootpGw gone addresses new (.error .freedNode)
  | freed {s' : State} : gone.card < maxUdpBcastServerPerInterface →
      Emptied bootpGw (s.serversOf portName) gone → validAddresses addresses = [] →
      CacheInv s' → s'.interface portName = none →
      (∀ other, other ≠ portName → s'.interface other = s.interface other) →
      s'.intfHashTable.length ≤ s.intfHashTable.length →
      Changes s portName bootpGw gone addresses new (.ok s')
  | manyNew : gone.card < maxUdpBcastServerPerInterface →
      ¬Emptied bootpGw (s.serversOf portName) gone →
      maxUdpBcastServerPerInterface ≤ new.length →
      Changes s portName bootpGw gone addresses new (.error .scratchBounds)
  | stored {s' : State} {n : UdpfwdInterfaceNode} {ks : List ServerKey} :
      gone.card < maxUdpBcastServerPerInterface →
      ¬Emptied bootpGw (s.serversOf portName) gone →
      new.length < maxUdpBcastServerPerInterface →
      Linked s' → s'.interface portName = some (n, ks) → n.bootpGw = bootpGw →
      s'.serversOf portName = s.serversOf portName - gone +
        (new.take (maxUdpBcastServerPerInterface - (s.serversOf portName - gone).card) :
          List ServerKey) →
      (∀ other, other ≠ portName → s'.interface other = s.interface other) →
      s'.intfHashTable.length ≤ s.intfHashTable.length + 1 →
      (maxUdpBcastServerPerInterface * (s.intfHashTable.length + 1) ≤ 65535 → Counted s') →
      Changes s portName bootpGw gone addresses new (.ok s')

section replace

variable {s s₁ : State} {p : NodePtr} {n : UdpfwdInterfaceNode} {portName : CString}
  {bootpGw : IpAddress}

/-- Replacing the servers of the node that was looked up, seen from the interfaces. -/
theorem NodeFor.changes (h : NodeFor s s₁ p n portName bootpGw) (hs : Linked s)
    (hnonzero : ∀ k ∈ s.serversOf portName, k.1 ≠ 0) {stale : ServerKey → Option ServerKey}
    (hstale : ∀ k k', stale k = some k' → k'.1 = k.1) (addresses : List CString)
    (listed : IpAddress → ServerKey → Bool) (udpPort : UInt16) :
    Changes s portName bootpGw ((s.serversOf portName).filterMap stale) addresses
      (newServers (s.serversOf portName - (s.serversOf portName).filterMap stale) addresses
        listed udpPort)
      (replaceServers s₁ p addresses stale listed udpPort) := by
  have hl₁ := h.inv.linked
  have hreplaces := replaceServers_eq h.inv h.node (by rwa [h.held]) hstale addresses listed
    udpPort
  have hgone : (((s₁.keysAt p).filterMap stale : List ServerKey) : Multiset ServerKey)
      = (s.serversOf portName).filterMap stale := by
    rw [← h.held, State.held, Multiset.filterMap_coe]
  have hcard : ((s.serversOf portName).filterMap stale).card
      = ((s₁.keysAt p).filterMap stale).length := by
    rw [← hgone, Multiset.coe_card]
  rw [hgone, h.held] at hreplaces
  generalize replaceServers s₁ p addresses stale listed udpPort = r at hreplaces ⊢
  -- what happens to the node of the row, told of the interface under its name
  cases hreplaces with
  | manyGone hlen => exact .manyGone (hcard.trans hlen)
  | readFreed hlen hempty hvalid =>
    rw [hgone, h.held, h.gw] at hempty
    exact .readFreed (hcard.trans_lt hlen) hempty hvalid
  | manyNew hlen hempty hnew =>
    rw [hgone, h.held, h.gw] at hempty
    exact .manyNew (hcard.trans_lt hlen) hempty hnew
  | freed hlen hempty hvalid hinv hfrees =>
    rw [hgone, h.held, h.gw] at hempty
    have hnames := h.frame hs hinv.linked hfrees.others (by
      intro m hm
      rw [hfrees.node] at hm
      exact absurd hm (by simp))
    refine .freed (hcard.trans_lt hlen) hempty hvalid hinv ?_ hnames ?_
    · apply interface_eq_none hinv.linked
      intro p' m hp' hname
      have hne : p' ≠ p := by
        intro heq
        rw [heq, hfrees.node] at hp'
        exact absurd hp' (by simp)
      rw [(hfrees.others p' hne).1] at hp'
      have h₁ := (hl₁.shashFind_eq_some_iff portName p').mpr ⟨m, hp', hname⟩
      have h₂ := (hl₁.shashFind_eq_some_iff portName p).mpr ⟨n, h.node, h.name⟩
      rw [h₁, Option.some.injEq] at h₂
      exact hne h₂
    · rw [hfrees.table, List.length_erase_of_mem (hl₁.mem_table h.node)]
      have htable := h.table
      omega
  | stored hlen hempty hnew htouch hheld hcounted =>
    rw [hgone, h.held, h.gw] at hempty
    obtain ⟨n', hp', hname', hgw', _⟩ := htouch.node n h.node
    rw [h.name] at hname'
    have hintf := interface_eq htouch.linked hp'
    have hservers := serversOf_eq htouch.linked hp'
    rw [hname'] at hintf hservers
    refine .stored (hcard.trans_lt hlen) hempty hnew htouch.linked hintf (hgw'.trans h.gw) ?_ ?_
      ?_ ?_
    · rw [hservers, hheld, hgone, h.held]
    · refine h.frame hs htouch.linked htouch.others ?_
      intro m hm
      rw [hp', Option.some.injEq] at hm
      rw [← hm, hname']
    · rw [htouch.table]
      exact h.table
    · intro hfew
      apply hcounted
      refine Nat.le_trans (Nat.mul_le_mul_left _ h.table) hfew

end replace

theorem Cache.ne_zero_of_mem_serversOf (c : Cache) {portName : CString} {k : ServerKey}
    (hk : k ∈ c.state.serversOf portName) : k.1 ≠ 0 := by
  cases hfind : c.state.shashFind portName with
  | none =>
    rw [State.serversOf, (interface_eq_none_iff c.inv.linked).mpr hfind] at hk
    exact absurd hk (Multiset.notMem_zero k)
  | some p =>
    obtain ⟨n, hp, rfl⟩ := (c.inv.linked.shashFind_eq_some_iff portName p).mp hfind
    rw [serversOf_eq c.inv.linked hp] at hk
    exact c.ne_zero hk

/-! ## The DHCP relay handler -/

section dhcpRelay

variable (c : Cache) {rec : DhcpRelayRow} {modified : DhcpRelayModified} {portName vrf : CString}

/-- What the handler deletes: on `DHCPS_PORT` every address the row does not list. -/
def dhcpRelayStale (addresses : List CString) (server : ServerKey) : Option ServerKey :=
  if serverIpExists server.1 addresses then none else some (server.1, dhcpsPort)

theorem dhcpRelayStale_fst {addresses : List CString} (k k' : ServerKey)
    (h : dhcpRelayStale addresses k = some k') : k'.1 = k.1 := by
  unfold dhcpRelayStale at h
  split at h
  · exact absurd h (by simp)
  · rw [Option.some.injEq] at h
    rw [← h]

/-- The gateway of the interface when its servers are replaced. -/
def dhcpRelayBootpGw (s : State) (rec : DhcpRelayRow) (modified : DhcpRelayModified)
    (portName : CString) : IpAddress :=
  if modified.otherConfig then changedBootpGw rec.bootpGateway (s.bootpGwOf portName)
  else s.bootpGwOf portName

/-- The handler's node and the cache when it comes to look at the servers, if it does. -/
def dhcpRelayNode (s : State) (rec : DhcpRelayRow) (modified : DhcpRelayModified) :
    Except Fault (Option (NodePtr × State)) := do
  match rec.port, rec.vrf with
  | some portName, some _ =>
    let (intfNode, s) := lookupIntferfaceNode s portName
    let s ←
      if modified.otherConfig then do
        let n ← s.node intfNode
        pure (s.setNode intfNode { n with bootpGw := changedBootpGw rec.bootpGateway n.bootpGw })
      else pure s
    if !modified.ipv4UcastServer then
      return none
    return some (intfNode, s)
  | _, _ => return none

/-- The handler up to the point where it looks at the servers. -/
theorem dhcpRelayConfigChange_eq (modified : DhcpRelayModified)
    (hport : rec.port = some portName) (hvrf : rec.vrf = some vrf) :
    ∃ p s₁ n, NodeFor c.state s₁ p n portName
        (dhcpRelayBootpGw c.state rec modified portName) ∧
      dhcpRelayNode c.state rec modified =
        .ok (if !modified.ipv4UcastServer then none else some (p, s₁)) ∧
      udpfwdHandleDhcpRelayConfigChange c.state rec modified =
        if !modified.ipv4UcastServer then .ok s₁
        else replaceServers s₁ p rec.ipv4UcastServer (dhcpRelayStale rec.ipv4UcastServer)
          (fun id server => server.1 = id) dhcpsPort := by
  obtain ⟨p, s₁, n, hlookup, hfor⟩ := lookupIntferfaceNode_eq c.inv portName
  unfold udpfwdHandleDhcpRelayConfigChange dhcpRelayNode dhcpRelayBootpGw
  simp only [hport, hvrf, hlookup]
  -- a changed gateway is in the node before the servers are looked at
  cases modified.otherConfig with
  | false =>
    refine ⟨p, s₁, n, hfor, ?_, rfl⟩
    cases modified.ipv4UcastServer <;> rfl
  | true =>
    refine ⟨p, _, _, hfor.setBootpGw (changedBootpGw rec.bootpGateway _), ?_, ?_⟩
    · simp only [if_true, s₁.node_eq_ok hfor.node, ok_bind, hfor.gw]
      cases modified.ipv4UcastServer <;> rfl
    · simp only [if_true, s₁.node_eq_ok hfor.node, ok_bind, hfor.gw]
      rfl

theorem dhcpRelayConfigChange_changes (hport : rec.port = some portName)
    (hvrf : rec.vrf = some vrf) (hmodified : modified.ipv4UcastServer = true) :
    Changes c.state portName (dhcpRelayBootpGw c.state rec modified portName)
      ((c.state.serversOf portName).filterMap (dhcpRelayStale rec.ipv4UcastServer))
      rec.ipv4UcastServer
      (newServers (c.state.serversOf portName - (c.state.serversOf portName).filterMap
        (dhcpRelayStale rec.ipv4UcastServer)) rec.ipv4UcastServer
        (fun id server => server.1 = id) dhcpsPort)
      (udpfwdHandleDhcpRelayConfigChange c.state rec modified) := by
  obtain ⟨p, s₁, n, hfor, -, hrun⟩ := dhcpRelayConfigChange_eq c modified hport hvrf
  rw [hrun, hmodified]
  exact hfor.changes c.inv.linked (fun k hk => c.ne_zero_of_mem_serversOf hk)
    dhcpRelayStale_fst _ _ _

/-- A row without port or VRF is left out. -/
theorem dhcpRelayConfigChange_skipped (s : State) (modified : DhcpRelayModified)
    (hnone : rec.port = none ∨ rec.vrf = none) :
    udpfwdHandleDhcpRelayConfigChange s rec modified = .ok s ∧
      dhcpRelayNode s rec modified = .ok none := by
  unfold udpfwdHandleDhcpRelayConfigChange dhcpRelayNode
  rcases hnone with hport | hvrf
  · rw [hport]
    exact ⟨rfl, rfl⟩
  · rw [hvrf]
    cases rec.port <;> exact ⟨rfl, rfl⟩

end dhcpRelay

/-! ## The forwarder handler -/

section udpBcastForwarder

variable (c : Cache) {rec : UdpBcastForwarderRow} {portName vrf : CString}

/-- What the handler deletes: on the row's port every address the row does not list. -/
def udpBcastForwarderStale (udpDport : ℤ) (addresses : List CString) (server : ServerKey) :
    Option ServerKey :=
  if !(serverIpExists server.1 addresses && server.2.toNat = udpDport) &&
    server.2.toNat = udpDport then some server else none

theorem udpBcastForwarderStale_fst {udpDport : ℤ} {addresses : List CString} (k k' : ServerKey)
    (h : udpBcastForwarderStale udpDport addresses k = some k') : k'.1 = k.1 := by
  unfold udpBcastForwarderStale at h
  split at h
  · rw [Option.some.injEq] at h
    rw [h]
  · exact absurd h (by simp)

/-- The handler's node and the cache when it comes to look at the servers, if it does. -/
def udpBcastForwarderNode (s : State) (rec : UdpBcastForwarderRow) : Option (NodePtr × State) :=
  match rec.srcPort, rec.destVrf with
  | some portName, some _ => some (lookupIntferfaceNode s portName)
  | _, _ => none

theorem udpBcastForwarderConfigChange_changes (hport : rec.srcPort = some portName)
    (hvrf : rec.destVrf = some vrf) :
    Changes c.state portName (c.state.bootpGwOf portName)
      ((c.state.serversOf portName).filterMap
        (udpBcastForwarderStale rec.udpDport rec.ipv4UcastServer))
      rec.ipv4UcastServer
      (newServers (c.state.serversOf portName - (c.state.serversOf portName).filterMap
        (udpBcastForwarderStale rec.udpDport rec.ipv4UcastServer)) rec.ipv4UcastServer
        (fun id server => server.1 = id ∧ server.2.toNat = rec.udpDport)
        (UInt16.ofNat (rec.udpDport % 65536).toNat))
      (udpfwdHandleUdpBcastForwarderConfigChange c.state rec) := by
  obtain ⟨p, s₁, n, hlookup, hfor⟩ := lookupIntferfaceNode_eq c.inv portName
  unfold udpfwdHandleUdpBcastForwarderConfigChange
  simp only [hport, hvrf, hlookup]
  exact hfor.changes c.inv.linked (fun k hk => c.ne_zero_of_mem_serversOf hk)
    udpBcastForwarderStale_fst _ _ _

/-- A row without port or VRF is left out. -/
theorem udpBcastForwarderConfigChange_skipped (s : State)
    (hnone : rec.srcPort = none ∨ rec.destVrf = none) :
    udpfwdHandleUdpBcastForwarderConfigChange s rec = .ok s ∧
      udpBcastForwarderNode s rec = none := by
  unfold udpfwdHandleUdpBcastForwarderConfigChange udpBcastForwarderNode
  rcases hnone with hport | hvrf
  · rw [hport]
    exact ⟨rfl, rfl⟩
  · rw [hvrf]
    cases rec.srcPort <;> exact ⟨rfl, rfl⟩

end udpBcastForwarder

/-! ## The node of the row -/

section lifetime

theorem filterMap_eq_self {held : Multiset ServerKey} {stale : ServerKey → Option ServerKey}
    (hall : ∀ k ∈ held, stale k = some k) : held.filterMap stale = held := by
  rw [← Multiset.coe_toList held, Multiset.filterMap_coe,
    List.filterMap_congr fun k hk => hall k (Multiset.mem_toList.mp hk)]
  exact congrArg _ List.filterMap_some

theorem card_filterMap_le (held : Multiset ServerKey) (stale : ServerKey → Option ServerKey) :
    (held.filterMap stale).card ≤ held.card := by
  rw [← Multiset.coe_toList held, Multiset.filterMap_coe, Multiset.coe_card, Multiset.coe_card]
  exact List.length_filterMap_le _ _

theorem sub_filterMap_eq_zero_iff {held : Multiset ServerKey}
    {stale : ServerKey → Option ServerKey}
    (hidem : ∀ k k', stale k = some k' → stale k' = some k') :
    held - held.filterMap stale = 0 ↔ ∀ k ∈ held, stale k = some k := by
  constructor
  · intro hzero k hk
    -- as many servers are deleted as there are, so they are the same
    have hle : held ≤ held.filterMap stale := tsub_eq_zero_iff_le.mp hzero
    have heq := Multiset.eq_of_le_of_card_le hle (card_filterMap_le held stale)
    rw [heq, Multiset.mem_filterMap] at hk
    obtain ⟨k₀, _, hk₀⟩ := hk
    exact hidem k₀ k hk₀
  · intro hall
    rw [filterMap_eq_self hall, tsub_self]

/-- The servers a handler deletes, and the cache when it has done so. The loop then reads the entry
behind the list, and where the list fills its array it has left it. -/
def deletedServers (s : State) (intfNode : NodePtr) (stale : ServerKey → Option ServerKey) :
    Except Fault (List ServerKey × State) := do
  let servers ← collectServers s (← s.node intfNode) stale
  let filled := servers.takeWhile fun server => server.1 ≠ 0
  let s ← filled.foldlM (fun s server => do
    return (← udpfwdRemoveAddress s intfNode server.1 server.2).2) s
  return (filled, s)

/-- A loop of deletions that leaves its array still has a live node: with a freed one, whatever it
finds behind the array is deleted from that. -/
def LeavesArrayLive (s : State) (intfNode : NodePtr) (stale : ServerKey → Option ServerKey) :
    Prop :=
  ∀ servers s', deletedServers s intfNode stale = .ok (servers, s') →
    servers.length = maxUdpBcastServerPerInterface → ∃ n, s'.nodes intfNode = some n

/-- What is asked of a run of a handler that looks at the servers of `node`: it never follows the
pointer of a freed node, does not leave an array with one, the table files live nodes only, and the
interface of a row with an address to store is there. -/
def KeepsNode (port vrf : Option CString) (addresses : List CString)
    (node : Except Fault (Option (NodePtr × State))) (stale : ServerKey → Option ServerKey)
    (r : Except Fault State) : Prop :=
  r ≠ .error .freedNode ∧
    (∀ intfNode s, node = .ok (some (intfNode, s)) → LeavesArrayLive s intfNode stale) ∧
    ∀ s', r = .ok s' →
      (∀ e ∈ s'.intfHashTable, ∃ n, s'.nodes e.2 = some n) ∧
      (∀ portName, port = some portName → vrf ≠ none → validAddresses addresses ≠ [] →
        ∃ p n, s'.shashFind portName = some p ∧ s'.nodes p = some n)

theorem Linked.table_live {s : State} (h : Linked s) :
    ∀ e ∈ s.intfHashTable, ∃ n, s.nodes e.2 = some n := by
  intro e he
  obtain ⟨n, hn, _⟩ := (h.listed e.1 e.2).mp he
  exact ⟨n, hn⟩

/-- A loop that leaves its array has a freed node if it has taken the last server of an interface
without a gateway. -/
theorem NodeFor.leavesArrayLive_iff {s s₁ : State} {p : NodePtr} {n : UdpfwdInterfaceNode}
    {portName : CString} {bootpGw : IpAddress} (h : NodeFor s s₁ p n portName bootpGw)
    (hnonzero : ∀ k ∈ s.serversOf portName, k.1 ≠ 0) {stale : ServerKey → Option ServerKey}
    (hstale : ∀ k k', stale k = some k' → k'.1 = k.1) :
    LeavesArrayLive s₁ p stale ↔
      ¬(((s.serversOf portName).filterMap stale).card = maxUdpBcastServerPerInterface ∧
        Emptied bootpGw (s.serversOf portName) ((s.serversOf portName).filterMap stale)) := by
  set gone := (s₁.keysAt p).filterMap stale with hgone
  have hheld : (s.serversOf portName).filterMap stale = gone := by
    rw [← h.held, State.held, Multiset.filterMap_coe]
  -- no server has the address 0, so nothing in the list ends it early
  have hfilled : gone.takeWhile (fun server => decide (server.1 ≠ 0)) = gone := by
    rw [List.takeWhile_eq_self_iff]
    intro k' hk'
    obtain ⟨k, hk, hpick⟩ := List.mem_filterMap.mp hk'
    have hzero := hnonzero k (by rwa [← h.held, mem_held])
    simpa [hstale k k' hpick] using hzero
  have hrun : deletedServers s₁ p stale = (gone.foldlM (fun s server => do
      return (← udpfwdRemoveAddress s p server.1 server.2).2) s₁ >>= fun s => .ok (gone, s)) := by
    unfold deletedServers
    rw [s₁.node_eq_ok h.node, ok_bind, collectServers_eq h.inv.linked h.node, ok_bind, ← hgone]
    simp only [hfilled]
    rfl
  unfold LeavesArrayLive Emptied
  rw [hrun, hheld, Multiset.coe_card, ← h.held, ← h.gw]
  -- the removals free the node, or leave it with what it holds
  rcases foldlM_remove_eq gone h.inv h.node (List.length_filterMap_le _ _) with hfreed | hlive
  · obtain ⟨hgw, hne, hzero, s', hok, -, hfrees⟩ := hfreed
    rw [hok, ok_bind]
    constructor
    · rintro hall ⟨hfull, -⟩
      obtain ⟨m, hm⟩ := hall gone s' rfl hfull
      rw [hfrees.node] at hm
      exact absurd hm (by simp)
    · intro hnot servers s'' hservers hfull
      obtain ⟨rfl, rfl⟩ := Prod.mk.inj (Except.ok.inj hservers)
      exact absurd ⟨hfull, hgw, hne, hzero⟩ hnot
  · obtain ⟨hnot, s', hok, -, htouch, -⟩ := hlive
    rw [hok, ok_bind]
    refine iff_of_true ?_ fun hcase => hnot hcase.2
    intro servers s'' hservers hfull
    obtain ⟨rfl, rfl⟩ := Prod.mk.inj (Except.ok.inj hservers)
    obtain ⟨m, hm, -⟩ := htouch.node n h.node
    exact ⟨m, hm⟩

theorem Changes.keepsNode_iff {s s₁ : State} {p : NodePtr} {portName : CString}
    {bootpGw : IpAddress} {gone : Multiset ServerKey} {addresses : List CString}
    {new : List ServerKey} {r : Except Fault State}
    (h : Changes s portName bootpGw gone addresses new r) {stale : ServerKey → Option ServerKey}
    (hleaves : LeavesArrayLive s₁ p stale ↔
      ¬(gone.card = maxUdpBcastServerPerInterface ∧ Emptied bootpGw (s.serversOf portName) gone))
    {vrf : Option CString} :
    KeepsNode (some portName) vrf addresses (.ok (some (p, s₁))) stale r ↔
      ¬(Emptied bootpGw (s.serversOf portName) gone ∧
        (validAddresses addresses ≠ [] ∨ gone.card = maxUdpBcastServerPerInterface)) := by
  have hnode : (∀ intfNode s, (.ok (some (p, s₁)) : Except Fault (Option (NodePtr × State)))
      = .ok (some (intfNode, s)) → LeavesArrayLive s intfNode stale) ↔
        LeavesArrayLive s₁ p stale := by
    simp only [Except.ok.injEq, Option.some.injEq, Prod.mk.injEq, and_imp]
    exact ⟨fun hall => hall p s₁ rfl rfl, fun hlive _ _ hp hs => hp ▸ hs ▸ hlive⟩
  have hfault : ∀ s', (.error .scratchBounds : Except Fault State) ≠ .ok s' := by simp
  unfold KeepsNode
  rw [hnode]
  -- the call reads the freed node, leaves one of its arrays, or ends with the node gone or there
  cases h with
  | manyGone hlen =>
    rw [hleaves, and_iff_right (by simp)]
    constructor
    · intro hkeeps hcase
      exact hkeeps.1 ⟨hlen, hcase.1⟩
    · intro hnot
      exact ⟨fun hcase => hnot ⟨hcase.2, .inr hlen⟩, fun s' hs' => absurd hs' (hfault s')⟩
  | readFreed hlen hempty hvalid =>
    refine iff_of_false ?_ (not_not_intro ⟨hempty, .inl hvalid⟩)
    intro hkeeps
    exact hkeeps.1 rfl
  | freed hlen hempty hvalid hinv _ _ _ =>
    refine iff_of_true ⟨by simp, hleaves.mpr fun hcase => hlen.ne hcase.1, ?_⟩ ?_
    · intro s' hs'
      rw [Except.ok.injEq] at hs'
      subst hs'
      exact ⟨hinv.linked.table_live, fun _ _ _ hne => absurd hvalid hne⟩
    · rintro ⟨-, hne | hfull⟩
      · exact hne hvalid
      · exact hlen.ne hfull
  | manyNew hlen hempty _ =>
    exact iff_of_true ⟨by simp, hleaves.mpr fun hcase => hempty hcase.2,
      fun s' hs' => absurd hs' (hfault s')⟩ fun hcase => hempty hcase.1
  | @stored s₂ _ _ hlen hempty hnew hlinked hintf _ _ _ _ _ =>
    refine iff_of_true ⟨by simp, hleaves.mpr fun hcase => hempty hcase.2, ?_⟩
      fun hcase => hempty hcase.1
    intro s' hs'
    rw [Except.ok.injEq] at hs'
    subst hs'
    refine ⟨hlinked.table_live, ?_⟩
    intro name hname _ _
    rw [Option.some.injEq] at hname
    subst hname
    cases hfind : s₂.shashFind portName with
    | none =>
      rw [(interface_eq_none_iff hlinked).mpr hfind] at hintf
      exact absurd hintf (by simp)
    | some p =>
      obtain ⟨n, hn, _⟩ := (hlinked.shashFind_eq_some_iff portName p).mp hfind
      exact ⟨p, n, rfl, hn⟩

/-- An update of the `DHCP_Relay` row takes the last server of an interface that keeps no
gateway, and lists an address to store or fills the array of deletions. -/
def DhcpRelayTakesAll (s : State) (rec : DhcpRelayRow) (modified : DhcpRelayModified) : Prop :=
  ∃ portName vrf, rec.port = some portName ∧ rec.vrf = some vrf ∧
    modified.ipv4UcastServer = true ∧ dhcpRelayBootpGw s rec modified portName = 0 ∧
    s.serversOf portName ≠ 0 ∧
    (∀ k ∈ s.serversOf portName, k.2 = dhcpsPort ∧ k.1 ∉ validAddresses rec.ipv4UcastServer) ∧
    (validAddresses rec.ipv4UcastServer ≠ [] ∨
      (s.serversOf portName).card = maxUdpBcastServerPerInterface)

/-- An update of the `UDP_Bcast_Forwarder_Server` row does so. -/
def UdpBcastForwarderTakesAll (s : State) (rec : UdpBcastForwarderRow) : Prop :=
  ∃ portName vrf, rec.srcPort = some portName ∧ rec.destVrf = some vrf ∧
    s.bootpGwOf portName = 0 ∧ s.serversOf portName ≠ 0 ∧
    (∀ k ∈ s.serversOf portName,
      k.2.toNat = rec.udpDport ∧ k.1 ∉ validAddresses rec.ipv4UcastServer) ∧
    (validAddresses rec.ipv4UcastServer ≠ [] ∨
      (s.serversOf portName).card = maxUdpBcastServerPerInterface)

theorem dhcpRelayStale_eq_some_iff (addresses : List CString) (k k' : ServerKey) :
    dhcpRelayStale addresses k = some k' ↔
      k.1 ∉ validAddresses addresses ∧ k' = (k.1, dhcpsPort) := by
  unfold dhcpRelayStale
  by_cases hk : k.1 ∈ validAddresses addresses
  · rw [if_pos ((serverIpExists_iff _ _).mpr hk)]
    simp [hk]
  · rw [if_neg (fun hexists => hk ((serverIpExists_iff _ _).mp hexists))]
    simp [hk, eq_comm]

theorem udpBcastForwarderStale_eq_some_iff (udpDport : ℤ) (addresses : List CString)
    (k k' : ServerKey) :
    udpBcastForwarderStale udpDport addresses k = some k' ↔
      k.2.toNat = udpDport ∧ k.1 ∉ validAddresses addresses ∧ k' = k := by
  unfold udpBcastForwarderStale
  rw [← serverIpExists_iff]
  by_cases hport : (k.2.toNat : ℤ) = udpDport
  · cases hexists : serverIpExists k.1 addresses <;> simp [hport, eq_comm]
  · simp [hport]

theorem dhcpRelayStale_idem (addresses : List CString) (k k' : ServerKey)
    (h : dhcpRelayStale addresses k = some k') : dhcpRelayStale addresses k' = some k' := by
  rw [dhcpRelayStale_eq_some_iff] at h ⊢
  obtain ⟨hk, rfl⟩ := h
  exact ⟨hk, rfl⟩

theorem udpBcastForwarderStale_idem (udpDport : ℤ) (addresses : List CString)
    (k k' : ServerKey) (h : udpBcastForwarderStale udpDport addresses k = some k') :
    udpBcastForwarderStale udpDport addresses k' = some k' := by
  rw [udpBcastForwarderStale_eq_some_iff] at h ⊢
  obtain ⟨hport, hk, rfl⟩ := h
  exact ⟨hport, hk, rfl⟩

/-- The servers taken, when they are all of them. -/
theorem takesAll_iff {held : Multiset ServerKey} {stale : ServerKey → Option ServerKey}
    (hidem : ∀ k k', stale k = some k' → stale k' = some k') (bootpGw : IpAddress) (valid : Prop) :
    (Emptied bootpGw held (held.filterMap stale) ∧
        (valid ∨ (held.filterMap stale).card = maxUdpBcastServerPerInterface)) ↔
      bootpGw = 0 ∧ held ≠ 0 ∧ (∀ k ∈ held, stale k = some k) ∧
        (valid ∨ held.card = maxUdpBcastServerPerInterface) := by
  unfold Emptied
  rw [sub_filterMap_eq_zero_iff hidem, and_assoc, and_assoc]
  refine and_congr_right fun _ => and_congr_right fun _ => and_congr_right fun hall => ?_
  rw [filterMap_eq_self hall]

theorem dhcpRelayTakesAll_iff (c : Cache) {rec : DhcpRelayRow} {modified : DhcpRelayModified}
    {portName vrf : CString} (hport : rec.port = some portName) (hvrf : rec.vrf = some vrf)
    (hmodified : modified.ipv4UcastServer = true) :
    DhcpRelayTakesAll c.state rec modified ↔
      Emptied (dhcpRelayBootpGw c.state rec modified portName) (c.state.serversOf portName)
          ((c.state.serversOf portName).filterMap (dhcpRelayStale rec.ipv4UcastServer)) ∧
        (validAddresses rec.ipv4UcastServer ≠ [] ∨
          ((c.state.serversOf portName).filterMap (dhcpRelayStale rec.ipv4UcastServer)).card
            = maxUdpBcastServerPerInterface) := by
  rw [takesAll_iff (dhcpRelayStale_idem rec.ipv4UcastServer)]
  -- a server is deleted with its own port exactly if it is a helper the row does not list
  have hstale : ∀ k, dhcpRelayStale rec.ipv4UcastServer k = some k ↔
      k.2 = dhcpsPort ∧ k.1 ∉ validAddresses rec.ipv4UcastServer := by
    intro k
    rw [dhcpRelayStale_eq_some_iff, Prod.ext_iff]
    tauto
  simp only [hstale]
  constructor
  · intro hcase
    obtain ⟨portName', _, hport', _, _, hrest⟩ := hcase
    rw [hport, Option.some.injEq] at hport'
    subst hport'
    exact hrest
  · intro hcase
    exact ⟨portName, vrf, hport, hvrf, hmodified, hcase⟩

theorem udpBcastForwarderTakesAll_iff (c : Cache) {rec : UdpBcastForwarderRow}
    {portName vrf : CString} (hport : rec.srcPort = some portName)
    (hvrf : rec.destVrf = some vrf) :
    UdpBcastForwarderTakesAll c.state rec ↔
      Emptied (c.state.bootpGwOf portName) (c.state.serversOf portName)
          ((c.state.serversOf portName).filterMap
            (udpBcastForwarderStale rec.udpDport rec.ipv4UcastServer)) ∧
        (validAddresses rec.ipv4UcastServer ≠ [] ∨
          ((c.state.serversOf portName).filterMap
            (udpBcastForwarderStale rec.udpDport rec.ipv4UcastServer)).card
            = maxUdpBcastServerPerInterface) := by
  rw [takesAll_iff (udpBcastForwarderStale_idem rec.udpDport rec.ipv4UcastServer)]
  -- the handler collects the servers of its own port that the row does not list
  have hstale : ∀ k, udpBcastForwarderStale rec.udpDport rec.ipv4UcastServer k = some k ↔
      k.2.toNat = rec.udpDport ∧ k.1 ∉ validAddresses rec.ipv4UcastServer := by
    intro k
    rw [udpBcastForwarderStale_eq_some_iff]
    tauto
  simp only [hstale]
  constructor
  · intro hcase
    obtain ⟨portName', _, hport', _, hrest⟩ := hcase
    rw [hport, Option.some.injEq] at hport'
    subst hport'
    exact hrest
  · intro hcase
    exact ⟨portName, vrf, hport, hvrf, hcase⟩

/-- A cache that is left as it is keeps to the lifetime of its nodes. -/
theorem Cache.keepsNode_skipped (c : Cache) {port vrf : Option CString}
    (hnone : port = none ∨ vrf = none) (addresses : List CString)
    (stale : ServerKey → Option ServerKey) :
    KeepsNode port vrf addresses (.ok none) stale (.ok c.state) := by
  refine ⟨by simp, by simp, ?_⟩
  intro s' hs'
  rw [Except.ok.injEq] at hs'
  subst hs'
  refine ⟨c.inv.linked.table_live, ?_⟩
  intro portName hport hvrf
  rcases hnone with hp | hv
  · rw [hp] at hport
    exact absurd hport (by simp)
  · exact absurd hv hvrf

/-- The relay handler keeps to the lifetime of its node except when the update takes every server of
the interface and stores others. -/
theorem dhcpRelayConfigChange_keepsNode (c : Cache) (rec : DhcpRelayRow)
    (modified : DhcpRelayModified) :
    KeepsNode rec.port rec.vrf rec.ipv4UcastServer (dhcpRelayNode c.state rec modified)
        (dhcpRelayStale rec.ipv4UcastServer)
        (udpfwdHandleDhcpRelayConfigChange c.state rec modified) ↔
      ¬DhcpRelayTakesAll c.state rec modified := by
  by_cases hnone : rec.port = none ∨ rec.vrf = none
  · obtain ⟨hrun, hnode⟩ := dhcpRelayConfigChange_skipped c.state modified hnone
    rw [hrun, hnode]
    refine iff_of_true (c.keepsNode_skipped hnone _ _) ?_
    rintro ⟨portName, vrf, hport, hvrf, -⟩
    simp [hport, hvrf] at hnone
  obtain ⟨hport, hvrf⟩ := not_or.mp hnone
  obtain ⟨portName, hport⟩ := Option.ne_none_iff_exists'.mp hport
  obtain ⟨vrf, hvrf⟩ := Option.ne_none_iff_exists'.mp hvrf
  cases hmodified : modified.ipv4UcastServer with
  | false =>
    -- the handler returns with the node that it looked up
    obtain ⟨p, s₁, n, hfor, hnode, hrun⟩ := dhcpRelayConfigChange_eq c modified hport hvrf
    rw [hrun, hnode, hmodified]
    refine iff_of_true ⟨by simp, by simp, ?_⟩ ?_
    · intro s' hs'
      simp only [Bool.not_false, if_true, Except.ok.injEq] at hs'
      subst hs'
      refine ⟨hfor.inv.linked.table_live, ?_⟩
      intro name hname _ _
      rw [hport, Option.some.injEq] at hname
      exact ⟨p, n, (hfor.inv.linked.shashFind_eq_some_iff name p).mpr
        ⟨n, hfor.node, hfor.name.trans hname⟩, hfor.node⟩
    · intro hcase
      obtain ⟨_, _, _, _, htrue, _⟩ := hcase
      rw [hmodified] at htrue
      exact absurd htrue (by simp)
  | true =>
    obtain ⟨p, s₁, n, hfor, hnode, -⟩ := dhcpRelayConfigChange_eq c modified hport hvrf
    have hnonzero : ∀ k ∈ c.state.serversOf portName, k.1 ≠ 0 :=
      fun k hk => c.ne_zero_of_mem_serversOf hk
    rw [hnode, hmodified, hport]
    refine ((dhcpRelayConfigChange_changes c hport hvrf hmodified).keepsNode_iff
      (hfor.leavesArrayLive_iff hnonzero dhcpRelayStale_fst)).trans ?_
    rw [not_iff_not]
    exact (dhcpRelayTakesAll_iff c hport hvrf hmodified).symm

/-- So does the forwarder handler. -/
theorem udpBcastForwarderConfigChange_keepsNode (c : Cache) (rec : UdpBcastForwarderRow) :
    KeepsNode rec.srcPort rec.destVrf rec.ipv4UcastServer
        (.ok (udpBcastForwarderNode c.state rec))
        (udpBcastForwarderStale rec.udpDport rec.ipv4UcastServer)
        (udpfwdHandleUdpBcastForwarderConfigChange c.state rec) ↔
      ¬UdpBcastForwarderTakesAll c.state rec := by
  by_cases hnone : rec.srcPort = none ∨ rec.destVrf = none
  · obtain ⟨hrun, hnode⟩ := udpBcastForwarderConfigChange_skipped c.state hnone
    rw [hrun, hnode]
    refine iff_of_true (c.keepsNode_skipped hnone _ _) ?_
    rintro ⟨portName, vrf, hport, hvrf, -⟩
    simp [hport, hvrf] at hnone
  obtain ⟨hport, hvrf⟩ := not_or.mp hnone
  obtain ⟨portName, hport⟩ := Option.ne_none_iff_exists'.mp hport
  obtain ⟨vrf, hvrf⟩ := Option.ne_none_iff_exists'.mp hvrf
  obtain ⟨p, s₁, n, hlookup, hfor⟩ := lookupIntferfaceNode_eq c.inv portName
  have hnonzero : ∀ k ∈ c.state.serversOf portName, k.1 ≠ 0 :=
    fun k hk => c.ne_zero_of_mem_serversOf hk
  have hnode : udpBcastForwarderNode c.state rec = some (p, s₁) := by
    rw [udpBcastForwarderNode, hport, hvrf]
    exact congrArg some hlookup
  rw [hnode, hport]
  refine ((udpBcastForwarderConfigChange_changes c hport hvrf).keepsNode_iff
    (hfor.leavesArrayLive_iff hnonzero udpBcastForwarderStale_fst)).trans ?_
  rw [not_iff_not]
  exact (udpBcastForwarderTakesAll_iff c hport hvrf).symm

/-- Both handlers keep to the lifetime of their node except when one update takes every
server of the interface and stores others. -/
theorem config_change_keepsNode_iff (c : Cache) :
    (∀ rec modified,
      KeepsNode rec.port rec.vrf rec.ipv4UcastServer (dhcpRelayNode c.state rec modified)
          (dhcpRelayStale rec.ipv4UcastServer)
          (udpfwdHandleDhcpRelayConfigChange c.state rec modified) ↔
        ¬DhcpRelayTakesAll c.state rec modified) ∧
    (∀ rec,
      KeepsNode rec.srcPort rec.destVrf rec.ipv4UcastServer
          (.ok (udpBcastForwarderNode c.state rec))
          (udpBcastForwarderStale rec.udpDport rec.ipv4UcastServer)
          (udpfwdHandleUdpBcastForwarderConfigChange c.state rec) ↔
        ¬UdpBcastForwarderTakesAll c.state rec) :=
  ⟨fun rec modified => dhcpRelayConfigChange_keepsNode c rec modified,
    fun rec => udpBcastForwarderConfigChange_keepsNode c rec⟩

/-- Interface `1` has the one helper 10.0.0.1 and no gateway, and its row changes to the
one helper 10.0.0.2. -/
theorem config_change_reads_freed_node :
    ∃ c : Cache, c.state.keysAt 0 = [(0x0100000a, 67)] ∧
      ¬KeepsNode (some ['1']) (some ['v']) ["10.0.0.2".toList]
        (dhcpRelayNode c.state ⟨some ['1'], some ['v'], none, ["10.0.0.2".toList]⟩ ⟨false, true⟩)
        (dhcpRelayStale ["10.0.0.2".toList])
        (udpfwdHandleDhcpRelayConfigChange c.state
          ⟨some ['1'], some ['v'], none, ["10.0.0.2".toList]⟩ ⟨false, true⟩) := by
  refine ⟨Cache.ofCalls [.create ['1'], .store 0 0x0100000a 67] _ rfl (by decide), by decide, ?_⟩
  intro hkeeps
  exact hkeeps.1 rfl

end lifetime

/-! ## The servers of the row -/

section exact

/-- The servers that are not deleted. -/
theorem sub_filterMap_eq_filter {held : Multiset ServerKey}
    {stale : ServerKey → Option ServerKey}
    (hidem : ∀ k k', stale k = some k' → stale k' = some k') {keep : ServerKey → Prop}
    [DecidablePred keep] (hkeep : ∀ k, stale k = some k ↔ ¬keep k) :
    held - held.filterMap stale = held.filter keep := by
  ext k
  rw [Multiset.count_sub]
  by_cases hk : keep k
  · -- a server to keep is nowhere in the list
    have hnot : k ∉ held.filterMap stale := by
      intro hmem
      obtain ⟨k₀, _, hk₀⟩ := (Multiset.mem_filterMap _ _).mp hmem
      exact (hkeep k).mp (hidem k₀ k hk₀) hk
    rw [Multiset.count_eq_zero_of_notMem hnot, Nat.sub_zero, Multiset.count_filter_of_pos hk]
  · -- every copy of another one is deleted
    have hle : held.count k ≤ (held.filterMap stale).count k := by
      rw [Multiset.le_count_iff_replicate_le]
      have hrep := Multiset.filterMap_le_filterMap stale
        (Multiset.le_count_iff_replicate_le.mp (Nat.le_refl (held.count k)))
      rwa [filterMap_eq_self] at hrep
      intro k' hk'
      rw [Multiset.eq_of_mem_replicate hk']
      exact (hkeep k).mpr hk
    rw [Multiset.count_filter_of_neg hk]
    omega

theorem card_filterMap_eq {held : Multiset ServerKey} {stale : ServerKey → Option ServerKey}
    {drop : ServerKey → Prop} [DecidablePred drop] (hdrop : ∀ k, (stale k).isSome ↔ drop k) :
    (held.filterMap stale).card = (held.filter drop).card := by
  rw [← Multiset.coe_toList held, Multiset.filterMap_coe, Multiset.filter_coe, Multiset.coe_card,
    Multiset.coe_card, List.length_filterMap_eq_countP, List.countP_eq_length_filter]
  congr 1
  apply List.filter_congr
  intro k _
  rw [Bool.eq_iff_iff, hdrop, decide_eq_true_iff]

section outcome

variable {s : State} {portName : CString} {bootpGw : IpAddress} {gone : Multiset ServerKey}
  {addresses : List CString} {new : List ServerKey} {r : Except Fault State}

/-- With room for all new servers the handler succeeds and stores them. -/
theorem Changes.of_room (h : Changes s portName bootpGw gone addresses new r)
    (hgone : gone.card < maxUdpBcastServerPerInterface)
    (hempty : ¬Emptied bootpGw (s.serversOf portName) gone)
    (hnew : new.length < maxUdpBcastServerPerInterface)
    (hroom : (s.serversOf portName - gone).card + new.length ≤ maxUdpBcastServerPerInterface) :
    ∃ s', r = .ok s' ∧ s'.serversOf portName = s.serversOf portName - gone + new ∧
      ∀ other, other ≠ portName → s'.interface other = s.interface other := by
  cases h with
  | manyGone hlen => exact absurd hlen (Nat.ne_of_lt hgone)
  | readFreed _ hempty' _ => exact absurd hempty' hempty
  | freed _ hempty' _ _ _ _ _ => exact absurd hempty' hempty
  | manyNew _ _ hnew' => exact absurd hnew (Nat.not_lt.mpr hnew')
  | @stored s' _ _ _ _ _ _ _ _ hservers hframe _ _ =>
    refine ⟨s', rfl, ?_, hframe⟩
    rw [hservers, List.take_of_length_le]
    omega

/-- A run that succeeds without freeing the node has deleted fewer servers than its array holds. -/
theorem Changes.of_ok {s' : State} (h : Changes s portName bootpGw gone addresses new (.ok s'))
    (hempty : ¬Emptied bootpGw (s.serversOf portName) gone) :
    gone.card < maxUdpBcastServerPerInterface := by
  cases h with
  | freed _ hempty' _ _ _ _ _ => exact absurd hempty' hempty
  | stored hlen _ _ _ _ _ _ _ _ _ => exact hlen

end outcome

/-- What a row asks for: on the row's port the interface has the row's addresses, and
nothing else changes, on this interface and on the others. -/
def ExactFor (s : State) (portName : CString) (udpPort : UInt16) (addresses : List IpAddress)
    (r : Except Fault State) : Prop :=
  ∃ s', r = .ok s' ∧
    (∀ id, (id, udpPort) ∈ s'.serversOf portName ↔ id ∈ addresses) ∧
    (s'.serversOf portName).filter (·.2 ≠ udpPort)
      = (s.serversOf portName).filter (·.2 ≠ udpPort) ∧
    ∀ other, other ≠ portName → s'.interface other = s.interface other

theorem mem_newServers {held : Multiset ServerKey} {addresses : List CString}
    {listed : IpAddress → ServerKey → Bool} {udpPort : UInt16} {k : ServerKey} :
    k ∈ newServers held addresses listed udpPort ↔
      (k.1 ∈ validAddresses addresses ∧ ∀ k' ∈ held, ¬listed k.1 k') ∧ k.2 = udpPort := by
  obtain ⟨id, port⟩ := k
  simp only [newServers, List.mem_map, List.mem_filter, decide_eq_true_iff, Prod.mk.injEq]
  constructor
  · intro hcase
    obtain ⟨a, ha, rfl, hport⟩ := hcase
    exact ⟨ha, hport.symm⟩
  · intro hcase
    exact ⟨id, hcase.1, rfl, hcase.2.symm⟩

/-- Storing on one port leaves the servers of the other ports. -/
theorem filter_other_ports {held : Multiset ServerKey} {udpPort : UInt16}
    {keep : ServerKey → Prop} [DecidablePred keep] (hkeep : ∀ k, k.2 ≠ udpPort → keep k)
    {new : List ServerKey} (hnew : ∀ k ∈ new, k.2 = udpPort) :
    (held.filter keep + new).filter (·.2 ≠ udpPort) = held.filter (·.2 ≠ udpPort) := by
  have hnil : (new : Multiset ServerKey).filter (·.2 ≠ udpPort) = 0 := by
    rw [Multiset.filter_eq_nil]
    intro k hk
    exact not_not_intro (hnew k (Multiset.mem_coe.mp hk))
  rw [Multiset.filter_add, hnil, add_zero, Multiset.filter_filter]
  apply Multiset.filter_congr
  intro k _
  exact ⟨fun hcase => hcase.1, fun hcase => ⟨hcase, hkeep k hcase⟩⟩

/-- What a row of distinct addresses asks for: on the row's port the interface has each of them once
and no other server, and nothing else changes, on this interface and on the others. -/
def ServesExactly (s : State) (portName : CString) (udpPort : UInt16) (ids : List IpAddress)
    (r : Except Fault State) : Prop :=
  ∃ s', r = .ok s' ∧
    (s'.serversOf portName).filter (·.2 = udpPort)
      = (ids.map fun id => (id, udpPort) : List ServerKey) ∧
    (s'.serversOf portName).filter (·.2 ≠ udpPort)
      = (s.serversOf portName).filter (·.2 ≠ udpPort) ∧
    ∀ other, other ≠ portName → s'.interface other = s.interface other

theorem count_mapPort (ids : List IpAddress) (udpPort : UInt16) (id : IpAddress) :
    ((ids.map fun id => (id, udpPort) : List ServerKey) : Multiset ServerKey).count (id, udpPort)
      = (ids : Multiset IpAddress).count id := by
  rw [← Multiset.map_coe]
  exact Multiset.count_map_eq_count' _ _ (fun _ _ h => (Prod.mk.inj h).1) id

/-- The servers kept and added on a port are the addresses of a row if each of them is there once
or is added. -/
theorem kept_add_new_eq_iff {held : Multiset ServerKey} {ids : List IpAddress}
    {udpPort : UInt16} (hnodup : ids.Nodup) {P : IpAddress → Prop} [DecidablePred P]
    (hP : ∀ id, P id → (id, udpPort) ∉ held) :
    (held.filter (fun k => k.2 ≠ udpPort ∨ k.1 ∈ ids) +
        ((ids.filter fun id => P id).map fun id => (id, udpPort) : List ServerKey)).filter
          (·.2 = udpPort)
      = (ids.map fun id => (id, udpPort) : List ServerKey) ↔
    ∀ id ∈ ids, held.count (id, udpPort) = 1 ∨ P id := by
  have hone : ∀ id ∈ ids, (ids : Multiset IpAddress).count id = 1 := fun id hid =>
    Multiset.count_eq_one_of_mem (Multiset.coe_nodup.mpr hnodup) (Multiset.mem_coe.mpr hid)
  have hzero : ∀ id ∉ ids, (ids : Multiset IpAddress).count id = 0 := fun id hid =>
    Multiset.count_eq_zero_of_notMem (Multiset.mem_coe.not.mpr hid)
  have hcounts : ∀ id, ((held.filter (fun k => k.2 ≠ udpPort ∨ k.1 ∈ ids) +
      ((ids.filter fun id => P id).map fun id => (id, udpPort) : List ServerKey)).filter
        (·.2 = udpPort)).count (id, udpPort)
      = if id ∈ ids then if P id then 1 else held.count (id, udpPort) else 0 := by
    intro id
    rw [Multiset.count_filter_of_pos (p := fun k : ServerKey => k.2 = udpPort) rfl,
      Multiset.count_add, count_mapPort, ← Multiset.filter_coe]
    by_cases hid : id ∈ ids
    · rw [Multiset.count_filter_of_pos (.inr hid), if_pos hid]
      by_cases hadded : P id
      · rw [Multiset.count_eq_zero_of_notMem (hP id hadded), if_pos hadded,
          Multiset.count_filter_of_pos hadded, hone id hid]
      · rw [if_neg hadded, Multiset.count_filter_of_neg hadded, Nat.add_zero]
    · rw [Multiset.count_filter_of_neg (by simp [hid]), if_neg hid, Multiset.count_filter,
        hzero id hid, ite_self]
  constructor
  · intro heq id hid
    have hcount := hcounts id
    rw [heq, count_mapPort, hone id hid, if_pos hid] at hcount
    by_cases hadded : P id
    · exact .inr hadded
    · rw [if_neg hadded] at hcount
      exact .inl hcount.symm
  · intro hall
    ext ⟨id, port⟩
    by_cases hport : port = udpPort
    · subst hport
      rw [hcounts, count_mapPort]
      by_cases hid : id ∈ ids
      · rw [if_pos hid, hone id hid]
        by_cases hadded : P id
        · rw [if_pos hadded]
        · rw [if_neg hadded, (hall id hid).resolve_right hadded]
      · rw [if_neg hid, hzero id hid]
    · rw [Multiset.count_filter_of_neg (by simpa using hport),
        Multiset.count_eq_zero_of_notMem (by simp [Ne.symm hport])]

section relayRow

variable {held : Multiset ServerKey} {addresses : List CString} {ids : List IpAddress}

theorem relayStale_iff_not (hvalid : validAddresses addresses = ids) (k : ServerKey) :
    dhcpRelayStale addresses k = some k ↔ ¬(k.2 ≠ dhcpsPort ∨ k.1 ∈ ids) := by
  rw [dhcpRelayStale_eq_some_iff, hvalid, Prod.ext_iff]
  tauto

theorem isSome_relayStale (hvalid : validAddresses addresses = ids) (k : ServerKey) :
    (dhcpRelayStale addresses k).isSome ↔ k.1 ∉ ids := by
  rw [Option.isSome_iff_exists, ← hvalid]
  simp only [dhcpRelayStale_eq_some_iff]
  exact ⟨fun hcase => hcase.choose_spec.1, fun hk => ⟨_, hk, rfl⟩⟩

/-- An interface that keeps a server, or its gateway, keeps its node. -/
theorem not_emptied_of_survives (hvalid : validAddresses addresses = ids) {bootpGw : IpAddress}
    (hsurvives : ¬(bootpGw = 0 ∧ held ≠ 0 ∧ ∀ k ∈ held, k.2 = dhcpsPort ∧ k.1 ∉ ids)) :
    ¬Emptied bootpGw held (held.filterMap (dhcpRelayStale addresses)) := by
  intro hcase
  obtain ⟨hgw, hne, hzero⟩ := hcase
  rw [sub_filterMap_eq_zero_iff (dhcpRelayStale_idem _)] at hzero
  refine hsurvives ⟨hgw, hne, fun k hk => ?_⟩
  have hk' := (relayStale_iff_not hvalid k).mp (hzero k hk)
  tauto

/-- An address is stored only if no server of the interface has it. -/
theorem newServers_relayRow (hvalid : validAddresses addresses = ids) :
    newServers (held.filter fun k => k.2 ≠ dhcpsPort ∨ k.1 ∈ ids) addresses
        (fun id server => server.1 = id) dhcpsPort
      = (ids.filter fun id => ∀ k ∈ held, k.1 ≠ id).map fun id => (id, dhcpsPort) := by
  rw [newServers, hvalid]
  congr 1
  refine List.filter_congr fun id hid => ?_
  rw [Bool.eq_iff_iff, decide_eq_true_iff, decide_eq_true_iff]
  simp only [decide_eq_true_eq, Multiset.mem_filter]
  exact ⟨fun hcase k hk heq => hcase k ⟨hk, .inr (heq ▸ hid)⟩ heq,
    fun hcase k hk => hcase k hk.1⟩

theorem length_stored_le :
    (ids.filter fun id => ∀ k ∈ held, k.1 ≠ id).length
      ≤ (ids.filter fun id => (id, dhcpsPort) ∉ held).length := by
  rw [← List.countP_eq_length_filter, ← List.countP_eq_length_filter]
  refine List.countP_mono_left fun id _ hnone => ?_
  rw [decide_eq_true_iff] at hnone ⊢
  exact fun hmem => hnone _ hmem rfl

end relayRow

/-- `DHCP_Relay` rows are compared by address only, so the update is exact if the interface has
every address of the row once as a helper or in no server at all. The other condition is the size
of the array on the stack. -/
theorem dhcpRelayConfigChange_exact_iff (c : Cache) {rec : DhcpRelayRow}
    {modified : DhcpRelayModified} {portName vrf : CString} {ids : List IpAddress}
    (hport : rec.port = some portName) (hvrf : rec.vrf = some vrf)
    (hmodified : modified.ipv4UcastServer = true) (hlen : rec.ipv4UcastServer.length ≤ 8)
    (hids : rec.ipv4UcastServer.map serverAddress = ids.map some) (hnodup : ids.Nodup)
    (hsurvives : ¬(dhcpRelayBootpGw c.state rec modified portName = 0 ∧
      c.state.serversOf portName ≠ 0 ∧
      ∀ k ∈ c.state.serversOf portName, k.2 = dhcpsPort ∧ k.1 ∉ ids))
    (hroom : ((c.state.serversOf portName).filter fun k => k.2 ≠ dhcpsPort ∨ k.1 ∈ ids).card +
      (ids.filter fun id => (id, dhcpsPort) ∉ c.state.serversOf portName).length ≤
        maxUdpBcastServerPerInterface) :
    ServesExactly c.state portName dhcpsPort ids
        (udpfwdHandleDhcpRelayConfigChange c.state rec modified) ↔
      (∀ id ∈ ids, (c.state.serversOf portName).count (id, dhcpsPort) = 1 ∨
        ∀ k ∈ c.state.serversOf portName, k.1 ≠ id) ∧
      ((c.state.serversOf portName).filter fun k => k.1 ∉ ids).card
        < maxUdpBcastServerPerInterface := by
  have hvalid : validAddresses rec.ipv4UcastServer = ids := by
    have hsome : (rec.ipv4UcastServer.map serverAddress).reduceOption
        = (ids.map some).reduceOption := by rw [hids]
    rw [SwapErase.reduceOption_map_some, List.reduceOption, List.filterMap_map] at hsome
    exact hsome
  have hchanges := dhcpRelayConfigChange_changes c hport hvrf hmodified
  set held := c.state.serversOf portName with hheld
  have hempty := not_emptied_of_survives hvalid hsurvives
  have hkept := @sub_filterMap_eq_filter held _ (dhcpRelayStale_idem _) _ _
    (relayStale_iff_not hvalid)
  -- an address of the row is new if no server has it, on whatever port
  rw [hkept, newServers_relayRow hvalid] at hchanges
  rw [← card_filterMap_eq (isSome_relayStale hvalid)]
  by_cases hgone : (held.filterMap (dhcpRelayStale rec.ipv4UcastServer)).card
      < maxUdpBcastServerPerInterface
  · have hlength : ids.length ≤ 8 := by
      have hmap := congrArg List.length hids
      rw [List.length_map, List.length_map] at hmap
      omega
    have hnewlen := List.length_filter_le (fun id => decide (∀ k ∈ held, k.1 ≠ id)) ids
    have hnewroom := @length_stored_le held ids
    obtain ⟨s', hrun, hservers, hframe⟩ := hchanges.of_room hgone hempty
      (by rw [List.length_map]; exact Nat.lt_of_le_of_lt (hnewlen.trans hlength) (by decide))
      (by rw [← hheld, hkept, List.length_map]; omega)
    rw [← hheld, hkept] at hservers
    rw [and_iff_left hgone, ← kept_add_new_eq_iff hnodup fun id hnone hmem => hnone _ hmem rfl,
      ← hservers]
    constructor
    · rintro ⟨s'', hrun', hexact, -⟩
      rw [hrun, Except.ok.injEq] at hrun'
      rw [hrun']
      exact hexact
    · intro hexact
      refine ⟨s', hrun, hexact, ?_, hframe⟩
      rw [hservers]
      refine filter_other_ports (fun k hk => .inl hk) fun k hk => ?_
      obtain ⟨id, -, rfl⟩ := List.mem_map.mp hk
      rfl
  · refine iff_of_false ?_ fun hcase => hgone hcase.2
    rintro ⟨s', hrun, -⟩
    rw [hrun] at hchanges
    exact hgone (hchanges.of_ok hempty)

/-- A helper is kept and another one is stored, next to a forward-protocol server. -/
theorem dhcpRelayConfigChange_exact_iff_mixed :
    ∃ c : Cache, c.state.keysAt 0 = [(0x0100000a, 67), (0x0200000a, 9999)] ∧
      ServesExactly c.state ['1'] dhcpsPort [0x0100000a, 0x0300000a]
        (udpfwdHandleDhcpRelayConfigChange c.state
          ⟨some ['1'], some ['v'], none, ["10.0.0.1".toList, "10.0.0.3".toList]⟩
          ⟨false, true⟩) := by
  refine ⟨Cache.ofCalls [.create ['1'], .store 0 0x0100000a 67, .store 0 0x0200000a 9999] _ rfl
    (by decide), by decide, ?_⟩
  exact (dhcpRelayConfigChange_exact_iff _ rfl rfl rfl (by decide) (by decide) (by decide)
    (by decide) (by decide)).mpr (by decide)

/-- The address of a forward-protocol server is not stored as a helper, and a helper that the
interface has twice stays there twice. -/
theorem dhcpRelayConfigChange_drops_helper :
    (∃ c : Cache, c.state.keysAt 0 = [(0x0100000a, 9999)] ∧
      ¬(dhcpRelayBootpGw c.state ⟨some ['1'], some ['v'], none, ["10.0.0.1".toList]⟩
          ⟨false, true⟩ ['1'] = 0 ∧ c.state.serversOf ['1'] ≠ 0 ∧
        ∀ k ∈ c.state.serversOf ['1'], k.2 = dhcpsPort ∧ k.1 ∉ [(0x0100000a : IpAddress)]) ∧
      ¬ServesExactly c.state ['1'] dhcpsPort [0x0100000a]
        (udpfwdHandleDhcpRelayConfigChange c.state
          ⟨some ['1'], some ['v'], none, ["10.0.0.1".toList]⟩ ⟨false, true⟩)) ∧
    ∃ c : Cache, c.state.keysAt 0 = [(0x0100000a, 67), (0x0100000a, 67)] ∧
      ¬ServesExactly c.state ['1'] dhcpsPort [0x0100000a]
        (udpfwdHandleDhcpRelayConfigChange c.state
          ⟨some ['1'], some ['v'], none, ["10.0.0.1".toList]⟩ ⟨false, true⟩) := by
  refine ⟨⟨Cache.ofCalls [.create ['1'], .store 0 0x0100000a 9999] _ rfl (by decide), by decide,
    by decide, ?_⟩, Cache.ofCalls [.create ['1'], .store 0 0x0100000a 67,
      .store 0 0x0100000a 67] _ rfl (by decide), by decide, ?_⟩
  · rintro ⟨s', hrun, hservers, -⟩
    rw [← Except.ok.inj hrun] at hservers
    exact absurd hservers (by decide)
  · rintro ⟨s', hrun, hservers, -⟩
    rw [← Except.ok.inj hrun] at hservers
    exact absurd hservers (by decide)

/-- The servers of an interface that a forwarder row leaves in place. -/
def rowKept (held : Multiset ServerKey) (addresses : List CString) (udpPort : UInt16) :
    Multiset ServerKey :=
  held.filter fun k => k.2 ≠ udpPort ∨ k.1 ∈ validAddresses addresses

/-- The servers that a forwarder row adds. -/
def rowNew (held : Multiset ServerKey) (addresses : List CString) (udpPort : UInt16) :
    List ServerKey :=
  ((validAddresses addresses).filter fun id => (id, udpPort) ∉ held).map fun id => (id, udpPort)

theorem mem_rowNew {held : Multiset ServerKey} {addresses : List CString} {udpPort : UInt16}
    {k : ServerKey} :
    k ∈ rowNew held addresses udpPort ↔
      k.1 ∈ validAddresses addresses ∧ k ∉ held ∧ k.2 = udpPort := by
  obtain ⟨id, port⟩ := k
  simp only [rowNew, List.mem_map, List.mem_filter, decide_eq_true_iff, Prod.mk.injEq]
  constructor
  · intro hcase
    obtain ⟨a, ha, rfl, rfl⟩ := hcase
    exact ⟨ha.1, ha.2, rfl⟩
  · intro hcase
    obtain ⟨hid, hnot, rfl⟩ := hcase
    exact ⟨id, ⟨hid, hnot⟩, rfl, rfl⟩

theorem length_rowNew_le (held : Multiset ServerKey) (addresses : List CString)
    (udpPort : UInt16) : (rowNew held addresses udpPort).length ≤ addresses.length := by
  rw [rowNew, List.length_map]
  exact Nat.le_trans (List.length_filter_le _ _) (List.length_filterMap_le _ _)

/-- The forwarder handler on a row whose port is a port number. -/
theorem udpBcastForwarderConfigChange_port (c : Cache) {rec : UdpBcastForwarderRow}
    {portName vrf : CString} {udpPort : UInt16} (hport : rec.srcPort = some portName)
    (hvrf : rec.destVrf = some vrf) (hdport : rec.udpDport = udpPort.toNat) :
    ∃ gone, Changes c.state portName (c.state.bootpGwOf portName) gone rec.ipv4UcastServer
        (rowNew (c.state.serversOf portName) rec.ipv4UcastServer udpPort)
        (udpfwdHandleUdpBcastForwarderConfigChange c.state rec) ∧
      c.state.serversOf portName - gone
        = rowKept (c.state.serversOf portName) rec.ipv4UcastServer udpPort ∧
      gone.card = ((c.state.serversOf portName).filter fun k =>
        k.2 = udpPort ∧ k.1 ∉ validAddresses rec.ipv4UcastServer).card ∧
      (c.state.serversOf portName - gone = 0 ↔ ∀ k ∈ c.state.serversOf portName,
        k.2 = udpPort ∧ k.1 ∉ validAddresses rec.ipv4UcastServer) := by
  have hchanges := udpBcastForwarderConfigChange_changes c hport hvrf
  set held := c.state.serversOf portName with hheld'
  set ids := validAddresses rec.ipv4UcastServer with hids
  set stale := udpBcastForwarderStale rec.udpDport rec.ipv4UcastServer with hstaledef
  have hportiff : ∀ k : ServerKey, (k.2.toNat : ℤ) = rec.udpDport ↔ k.2 = udpPort := by
    intro k
    rw [hdport, Nat.cast_inj, UInt16.toNat_inj]
  have hidem := udpBcastForwarderStale_idem rec.udpDport rec.ipv4UcastServer
  have hstale : ∀ k, stale k = some k ↔ k.2 = udpPort ∧ k.1 ∉ ids := by
    intro k
    rw [hstaledef, udpBcastForwarderStale_eq_some_iff, hportiff]
    tauto
  have hkept : held - held.filterMap stale = rowKept held rec.ipv4UcastServer udpPort := by
    apply sub_filterMap_eq_filter hidem
    intro k
    rw [hstale k]
    tauto
  have hdrop : ∀ k, (stale k).isSome ↔ k.2 = udpPort ∧ k.1 ∉ ids := by
    intro k
    rw [Option.isSome_iff_exists, hstaledef]
    simp only [udpBcastForwarderStale_eq_some_iff, hportiff]
    exact ⟨fun hcase => ⟨hcase.choose_spec.1, hcase.choose_spec.2.1⟩,
      fun hk => ⟨k, hk.1, hk.2, rfl⟩⟩
  have hstored : UInt16.ofNat (rec.udpDport % 65536).toNat = udpPort := by
    have hlt := udpPort.toNat_lt
    have hmod : (rec.udpDport % 65536).toNat = udpPort.toNat := by omega
    rw [hmod]
    exact UInt16.ofNat_toNat
  -- the handler compares with the servers that are left, which is as good
  have hnew : newServers (rowKept held rec.ipv4UcastServer udpPort) rec.ipv4UcastServer
      (fun id server => server.1 = id ∧ server.2.toNat = rec.udpDport) udpPort
      = rowNew held rec.ipv4UcastServer udpPort := by
    unfold newServers rowNew
    congr 1
    apply List.filter_congr
    intro id hid
    rw [Bool.eq_iff_iff, decide_eq_true_iff, decide_eq_true_iff]
    simp only [rowKept, decide_eq_true_eq, hportiff, Multiset.mem_filter]
    constructor
    · intro hcase hmem
      exact hcase (id, udpPort) ⟨hmem, Or.inr hid⟩ ⟨rfl, rfl⟩
    · intro hcase k hk heq
      refine hcase ?_
      rw [← heq.1, ← heq.2]
      exact hk.1
  rw [hkept, hstored, hnew] at hchanges
  refine ⟨held.filterMap stale, hchanges, hkept, card_filterMap_eq hdrop, ?_⟩
  rw [sub_filterMap_eq_zero_iff hidem]
  exact forall₂_congr fun k _ => hstale k

/-- `UDP_Bcast_Forwarder_Server` rows are compared by address and port, and the update is
exact whenever the node stays and its array has room. -/
theorem udpBcastForwarderConfigChange_exact (c : Cache) {rec : UdpBcastForwarderRow}
    {portName vrf : CString} {udpPort : UInt16} (hport : rec.srcPort = some portName)
    (hvrf : rec.destVrf = some vrf) (hdport : rec.udpDport = udpPort.toNat)
    (hne : udpPort ≠ dhcpsPort) (hlen : rec.ipv4UcastServer.length ≤ 8)
    (hheld : ((c.state.serversOf portName).filter (·.2 ≠ dhcpsPort)).card ≤ 8)
    (hsurvives : ¬(c.state.bootpGwOf portName = 0 ∧ c.state.serversOf portName ≠ 0 ∧
      ∀ k ∈ c.state.serversOf portName,
        k.2 = udpPort ∧ k.1 ∉ validAddresses rec.ipv4UcastServer))
    (hroom : ((c.state.serversOf portName).filter fun k =>
        k.2 ≠ udpPort ∨ k.1 ∈ validAddresses rec.ipv4UcastServer).card +
      ((validAddresses rec.ipv4UcastServer).filter fun id =>
        (id, udpPort) ∉ c.state.serversOf portName).length ≤ maxUdpBcastServerPerInterface) :
    ExactFor c.state portName udpPort (validAddresses rec.ipv4UcastServer)
      (udpfwdHandleUdpBcastForwarderConfigChange c.state rec) := by
  obtain ⟨gone, hchanges, hkept, hcard, hzero⟩ :=
    udpBcastForwarderConfigChange_port c hport hvrf hdport
  set held := c.state.serversOf portName with hheld'
  have hempty : ¬Emptied (c.state.bootpGwOf portName) held gone :=
    fun hcase => hsurvives ⟨hcase.1, hcase.2.1, hzero.mp hcase.2.2⟩
  -- the servers to delete are forward-protocol servers
  have hgone : gone.card < maxUdpBcastServerPerInterface := by
    rw [hcard]
    refine Nat.lt_of_le_of_lt (Nat.le_trans (Multiset.card_le_card ?_) hheld) (by decide)
    refine Multiset.monotone_filter_right held fun k hk => ?_
    rw [hk.1]
    exact hne
  have hnewlen : (rowNew held rec.ipv4UcastServer udpPort).length ≤ 8 :=
    Nat.le_trans (length_rowNew_le _ _ _) hlen
  have hnewroom : (rowKept held rec.ipv4UcastServer udpPort).card +
      (rowNew held rec.ipv4UcastServer udpPort).length ≤ maxUdpBcastServerPerInterface := by
    rw [rowNew, List.length_map]
    exact hroom
  obtain ⟨s', hrun, hservers, hframe⟩ := hchanges.of_room hgone hempty
    (Nat.lt_of_le_of_lt hnewlen (by decide)) (by rw [← hheld', hkept]; exact hnewroom)
  rw [← hheld', hkept] at hservers
  refine ⟨s', hrun, ?_, ?_, hframe⟩
  · intro id
    rw [hservers, Multiset.mem_add, Multiset.mem_coe, mem_rowNew, rowKept, Multiset.mem_filter]
    by_cases hold : (id, udpPort) ∈ held
    · simp [hold]
    · simp [hold]
  · rw [hservers]
    exact filter_other_ports (fun k hk => Or.inl hk) fun k hk => (mem_rowNew.mp hk).2.2

/-- One server of the port is replaced, with a helper and an invalid string around. -/
theorem udpBcastForwarderConfigChange_exact_replace :
    ∃ c : Cache, c.state.keysAt 0 = [(0x0100000a, 67), (0x0200000a, 53), (0x0300000a, 53)] ∧
      ExactFor c.state ['1'] 53 [0x0300000a, 0x0100000a]
        (udpfwdHandleUdpBcastForwarderConfigChange c.state
          ⟨some ['1'], some ['v'], 53, ["10.0.0.3".toList, "host".toList, "10.0.0.1".toList]⟩) := by
  refine ⟨Cache.ofCalls [.create ['1'], .store 0 0x0100000a 67, .store 0 0x0200000a 53,
    .store 0 0x0300000a 53] _ rfl (by decide), by decide, ?_⟩
  exact udpBcastForwarderConfigChange_exact _ rfl rfl rfl (by decide) (by decide) (by decide)
    (by decide) (by decide)

end exact

end Udpfwd
end IpApps
