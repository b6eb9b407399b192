import IpApps.Udpfwd.BatchUpdate

/-!
# Runs of the configuration handlers

Every call of a handler by the update functions, in any order, and what a run of calls
does to the cache. A config-change call edits the interface of its row; the reference
counts are right as long as no server is used more often than its counter can count.
-/

namespace IpApps
namespace Udpfwd

open ExceptLoops
open scoped List

/-! ## How often a server is used -/

namespace State

variable (s : State)

/-- The names of the interfaces. -/
def names : List CString := s.intfHashTable.map Prod.fst

/-- How many slots hold the server `k`. -/
def uses (k : ServerKey) : ℕ := (s.names.map fun name => (s.serversOf name).count k).sum

/-- How many slots of other interfaces hold the server `k`. -/
def usesElsewhere (portName : CString) (k : ServerKey) : ℕ :=
  ((s.names.filter (· ≠ portName)).map fun name => (s.serversOf name).count k).sum

end State

section uses

variable {s s' : State} {p : NodePtr} {portName : CString}

theorem Linked.serversOf_eq_held (h : Linked s) {e : CString × NodePtr}
    (he : e ∈ s.intfHashTable) : s.serversOf e.1 = s.held e.2 := by
  obtain ⟨n, hp, hname⟩ := (h.listed e.1 e.2).mp he
  rw [← hname]
  exact serversOf_eq h hp

theorem Linked.mem_names_iff (h : Linked s) : portName ∈ s.names ↔ s.interface portName ≠ none := by
  rw [ne_eq, interface_eq_none_iff h, State.names]
  constructor
  · intro hmem hnone
    obtain ⟨e, he, rfl⟩ := List.mem_map.mp hmem
    obtain ⟨n, hp, hname⟩ := (h.listed e.1 e.2).mp he
    rw [(h.shashFind_eq_some_iff e.1 e.2).mpr ⟨n, hp, hname⟩] at hnone
    exact absurd hnone (by simp)
  · intro hsome
    obtain ⟨p, hfind⟩ := Option.ne_none_iff_exists'.mp hsome
    have hmem := (h.listed portName p).mpr ((h.shashFind_eq_some_iff portName p).mp hfind)
    exact List.mem_map.mpr ⟨_, hmem, rfl⟩

theorem serversOf_eq_zero (h : s.interface portName = none) : s.serversOf portName = 0 := by
  unfold State.serversOf
  rw [h]

/-- The slots of one interface and of the others. -/
theorem Linked.uses_split (h : Linked s) (portName : CString) (k : ServerKey) :
    s.uses k = s.usesElsewhere portName k + (s.serversOf portName).count k := by
  have hnodup : s.names.Nodup := h.names
  by_cases hmem : portName ∈ s.names
  · have hperm := (List.perm_cons_erase hmem).map fun name => (s.serversOf name).count k
    rw [State.uses, hperm.sum_eq, List.map_cons, List.sum_cons, hnodup.erase_eq_filter,
      State.usesElsewhere, Nat.add_comm]
    congr 3
    apply List.filter_congr
    intro name _
    rw [Bool.eq_iff_iff]
    simp
  · have hnone := not_not.mp (mt h.mem_names_iff.mpr hmem)
    rw [serversOf_eq_zero hnone, Multiset.count_zero, Nat.add_zero, State.uses,
      State.usesElsewhere, List.filter_eq_self.mpr]
    intro name hname
    rw [decide_eq_true_iff]
    exact fun heq => hmem (heq ▸ hname)

/-- The other interfaces are the same ones, in whatever order the tables list them. -/
theorem Linked.usesElsewhere_eq (h : Linked s) (h' : Linked s')
    (hframe : ∀ other, other ≠ portName → s'.interface other = s.interface other)
    (k : ServerKey) : s'.usesElsewhere portName k = s.usesElsewhere portName k := by
  have hnodup : s.names.Nodup := h.names
  have hnodup' : s'.names.Nodup := h'.names
  have hperm : s'.names.filter (· ≠ portName) ~ s.names.filter (· ≠ portName) := by
    rw [List.perm_ext_iff_of_nodup (hnodup'.filter _) (hnodup.filter _)]
    intro name
    rw [List.mem_filter, List.mem_filter, decide_eq_true_iff]
    refine and_congr_left fun hne => ?_
    rw [h'.mem_names_iff, h.mem_names_iff, hframe name hne]
  have hservers : (s'.names.filter (· ≠ portName)).map (fun name => (s'.serversOf name).count k)
      = (s'.names.filter (· ≠ portName)).map fun name => (s.serversOf name).count k := by
    apply List.map_congr_left
    intro name hname
    have hne := of_decide_eq_true (List.mem_filter.mp hname).2
    unfold State.serversOf
    rw [hframe name hne]
  rw [State.usesElsewhere, hservers]
  exact (hperm.map _).sum_eq

theorem Linked.uses_eq (h : Linked s) (k : ServerKey) :
    s.uses k = (s.intfHashTable.map fun e => (s.held e.2).count k).sum := by
  unfold State.uses State.names
  rw [List.map_map]
  congr 1
  apply List.map_congr_left
  intro e he
  show (s.serversOf e.1).count k = _
  rw [h.serversOf_eq_held he]

/-- A reference to an entry is a slot that holds its server. -/
theorem Linked.refTotal_eq_uses (h : Linked s) {q : ServerPtr} {r : UdpfwdServer}
    (hr : s.servers q = some r) : s.refTotal q = s.uses r.key := by
  rw [h.uses_eq, State.refTotal]
  congr 1
  apply List.map_congr_left
  intro e _
  rw [State.held, State.keysAt_eq]
  have hlive := h.live e.2
  generalize s.refsAt e.2 = qs at hlive
  induction qs with
  | nil => rfl
  | cons q' qs ih =>
    obtain ⟨r', hr'⟩ := hlive q' List.mem_cons_self
    have hih := ih fun q'' hq'' => hlive q'' (List.mem_cons_of_mem _ hq'')
    have hsame : (q' = q) ↔ (r.key = r'.key) := by
      constructor
      · intro heq
        rw [heq, hr, Option.some.injEq] at hr'
        rw [hr']
      · exact fun heq => h.unique q' q r' r hr' hr heq.symm
    rw [List.filterMap_cons, hr']
    simp only [Option.map_some, ← Multiset.cons_coe, Multiset.count_cons, List.count_cons, hih,
      beq_iff_eq, hsame]

theorem Linked.refTotal_le_of_uses (h : Linked s) (huses : ∀ k, s.uses k ≤ 65535)
    (q : ServerPtr) : s.refTotal q ≤ 65535 := by
  cases hr : s.servers q with
  | none =>
    rw [h.refTotal_eq_zero hr]
    exact Nat.zero_le _
  | some r =>
    rw [h.refTotal_eq_uses hr]
    exact huses r.key

/-- The counters of a consistent cache hold their counts. -/
theorem CacheInv.uses_le (h : CacheInv s) (k : ServerKey) : s.uses k ≤ 65535 := by
  by_cases hpos : 0 < s.uses k
  · -- some slot holds the server, so it has an entry, whose counter is a `uint16_t`
    rw [h.linked.uses_eq] at hpos
    obtain ⟨c, hc, hcpos⟩ := List.exists_mem_ne_zero_of_sum_ne_zero (Nat.pos_iff_ne_zero.mp hpos)
    obtain ⟨e, -, rfl⟩ := List.mem_map.mp hc
    have hmem := mem_held.mp (Multiset.count_pos.mp (Nat.pos_of_ne_zero hcpos))
    rw [State.keysAt_eq, List.mem_filterMap] at hmem
    obtain ⟨q, -, hq⟩ := hmem
    obtain ⟨r, hr, rfl⟩ := Option.map_eq_some_iff.mp hq
    have htotal := h.counted.total q r hr
    rw [h.linked.refTotal_eq_uses hr] at htotal
    have hlt := r.refCount.toNat_lt
    omega
  · omega

end uses

/-! ## Counting while servers are stored -/

section counted

variable {s s' : State} {p : NodePtr} {n : UdpfwdInterfaceNode}

theorem uses_le_of_append (h : Linked s) (htouch : Touches s s' p) {new : List ServerKey}
    (hkeys : s'.keysAt p = s.keysAt p ++ new) (k : ServerKey) : s.uses k ≤ s'.uses k := by
  rw [h.uses_eq, htouch.linked.uses_eq, htouch.table]
  apply List.sum_le_sum
  intro e _
  apply Multiset.count_le_of_le
  by_cases hep : e.2 = p
  · rw [State.held, State.held, hep, hkeys]
    exact Multiset.coe_le.mpr (List.sublist_append_left _ _).subperm
  · rw [State.held, State.held, (htouch.others e.2 hep).2]

/-- While servers are stored the uses grow, so no counter wraps if none would at the end. -/
theorem foldlM_store_counted (servers : List ServerKey) :
    ∀ {s : State} {n : UdpfwdInterfaceNode}, Linked s → s.nodes p = some n → Counted s →
      servers.foldlM (fun s server => do
        return (← udpfwdStoreAddress s p server.1 server.2).2) s = .ok s' →
      (∀ k, s'.uses k ≤ 65535) → Counted s' := by
  induction servers with
  | nil =>
    intro s n _ _ hc hrun _
    obtain rfl : s = s' := Except.ok.inj hrun
    exact hc
  | cons k servers ih =>
    intro s n h hp hc hrun huses
    rw [List.foldlM_cons] at hrun
    by_cases hfull : maxUdpBcastServerPerInterface ≤ n.addrCount
    · rw [udpfwdStoreAddress_full hp hfull] at hrun
      exact ih h hp hc hrun huses
    · obtain ⟨s₁, hstore, htouch, -, hcounted⟩ :=
        udpfwdStoreAddress_eq h hp (Nat.lt_of_not_le hfull) k.1 k.2
      obtain ⟨n₁, hp₁, -⟩ := htouch.node n hp
      rw [hstore] at hrun
      obtain ⟨s₂, hrun₂, htouch₂, hkeys₂, -⟩ := foldlM_store_eq servers htouch.linked hp₁
      obtain rfl : s₂ = s' := Except.ok.inj (hrun₂.symm.trans hrun)
      have huses₁ : ∀ k, s₁.uses k ≤ 65535 := fun k =>
        Nat.le_trans (uses_le_of_append htouch.linked htouch₂ hkeys₂ k) (huses k)
      exact ih htouch.linked hp₁ (hcounted hc (htouch.linked.refTotal_le_of_uses huses₁)) hrun huses

/-- Replacing the servers of an interface, with the counts at the end. -/
theorem replaceServers_counted (h : CacheInv s) (hp : s.nodes p = some n)
    (hnonzero : ∀ k ∈ s.held p, k.1 ≠ 0) {stale : ServerKey → Option ServerKey}
    (hstale : ∀ k k', stale k = some k' → k'.1 = k.1) {addresses : List CString}
    {listed : IpAddress → ServerKey → Bool} {udpPort : UInt16}
    (hrun : replaceServers s p addresses stale listed udpPort = .ok s')
    (huses : ∀ k, s'.uses k ≤ 65535) : Counted s' := by
  have hgonezero : ∀ k ∈ (s.keysAt p).filterMap stale, k.1 ≠ 0 := by
    intro k' hk'
    obtain ⟨k, hk, hpick⟩ := List.mem_filterMap.mp hk'
    rw [hstale k k' hpick]
    exact hnonzero k (mem_held.mpr hk)
  unfold replaceServers at hrun
  rw [s.node_eq_ok hp, ok_bind, collectServers_eq h.linked hp, ok_bind] at hrun
  obtain ⟨s₁, hremove, hrun⟩ := bind_eq_ok hrun
  obtain ⟨new, hnew, hrun⟩ := bind_eq_ok hrun
  -- the ways the removal ends; only the last one stores anything
  rcases removeServers_eq h hp hgonezero (List.length_filterMap_le _ _) with hfull | hfreed | hstays
  · rw [hfull.2] at hremove
    exact absurd hremove (by simp)
  · obtain ⟨-, -, s₂, hremove₂, hinv, hfrees⟩ := hfreed
    obtain rfl : s₂ = s₁ := Except.ok.inj (hremove₂.symm.trans hremove)
    rw [collectNewServers_freed hfrees.node] at hnew
    split at hnew
    · obtain rfl : [] = new := Except.ok.inj hnew
      obtain rfl : s₂ = s' := Except.ok.inj hrun
      exact hinv.counted
    · exact absurd hnew (by simp)
  · obtain ⟨-, -, s₂, hremove₂, hinv, htouch, -⟩ := hstays
    obtain rfl : s₂ = s₁ := Except.ok.inj (hremove₂.symm.trans hremove)
    obtain ⟨n₁, hp₁, -⟩ := htouch.node n hp
    rw [collectNewServers_eq hinv.linked hp₁] at hnew
    split at hnew
    · obtain rfl := Except.ok.inj hnew
      unfold storeServers at hrun
      rw [forEachServer_eq fun k hk => ne_zero_of_mem_newServers hk] at hrun
      obtain ⟨s₃, hstore, hrun⟩ := bind_eq_ok hrun
      split at hrun
      · exact absurd hrun (by simp)
      · obtain rfl : s₃ = s' := Except.ok.inj hrun
        exact foldlM_store_counted _ hinv.linked hp₁ hinv.counted hstore huses
    · exact absurd hnew (by simp)

end counted

/-! ## Calls -/

/-- The handler calls of the two update functions. -/
inductive HandlerCall
  | dhcpRelayRowDelete (rows : List DhcpRelayRow)
  | dhcpRelayConfigChange (rec : DhcpRelayRow) (modified : DhcpRelayModified)
  | udpBcastForwarderRowDelete (rows : List UdpBcastForwarderRow)
  | udpBcastForwarderConfigChange (rec : UdpBcastForwarderRow)

def HandlerCall.apply (s : State) : HandlerCall → Except Fault State
  | dhcpRelayRowDelete rows => udpfwdHandleDhcpRelayRowDelete s rows
  | dhcpRelayConfigChange rec modified => udpfwdHandleDhcpRelayConfigChange s rec modified
  | udpBcastForwarderRowDelete rows => udpfwdHandleUdpBcastForwarderRowDelete s rows
  | udpBcastForwarderConfigChange rec => udpfwdHandleUdpBcastForwarderConfigChange s rec

/-- What a row asks for at its interface: the gateway, the servers that stay, the addresses
that are looked at and the servers that are stored. -/
structure RowEdit where
  portName : CString
  bootpGw : IpAddress
  kept : Multiset ServerKey
  addresses : List IpAddress
  stored : List ServerKey

/-- The array takes as many new servers as it has free slots. -/
def storedServers (kept : Multiset ServerKey) (addresses : List CString)
    (listed : IpAddress → ServerKey → Bool) (udpPort : UInt16) : List ServerKey :=
  (newServers kept addresses listed udpPort).take (maxUdpBcastServerPerInterface - kept.card)

/-- The edit of a `DHCP_Relay` row. -/
def dhcpRelayEdit (s : State) (rec : DhcpRelayRow) (modified : DhcpRelayModified)
    (portName : CString) : RowEdit :=
  let held := s.serversOf portName
  let kept := held.filter fun k => k.2 ≠ dhcpsPort ∨ k.1 ∈ validAddresses rec.ipv4UcastServer
  { portName
    bootpGw := dhcpRelayBootpGw s rec modified portName
    kept := if modified.ipv4UcastServer then kept else held
    addresses := if modified.ipv4UcastServer then validAddresses rec.ipv4UcastServer else []
    stored :=
      if modified.ipv4UcastServer then
        storedServers kept rec.ipv4UcastServer (fun id server => server.1 = id) dhcpsPort
      else [] }

/-- The edit of a `UDP_Bcast_Forwarder_Server` row. -/
def udpBcastForwarderEdit (s : State) (rec : UdpBcastForwarderRow) (portName : CString) :
    RowEdit :=
  let kept := (s.serversOf portName).filter fun k =>
    k.2.toNat ≠ rec.udpDport ∨ k.1 ∈ validAddresses rec.ipv4UcastServer
  { portName
    bootpGw := s.bootpGwOf portName
    kept
    addresses := validAddresses rec.ipv4UcastServer
    stored := storedServers kept rec.ipv4UcastServer
      (fun id server => server.1 = id ∧ server.2.toNat = rec.udpDport)
      (UInt16.ofNat (rec.udpDport % 65536).toNat) }

/-- The edit of a call, if the row of the call is complete. -/
def HandlerCall.edit (s : State) : HandlerCall → Option RowEdit
  | dhcpRelayConfigChange rec modified =>
    match rec.port, rec.vrf with
    | some portName, some _ => some (dhcpRelayEdit s rec modified portName)
    | _, _ => none
  | udpBcastForwarderConfigChange rec =>
    match rec.srcPort, rec.destVrf with
    | some portName, some _ => some (udpBcastForwarderEdit s rec portName)
    | _, _ => none
  | dhcpRelayRowDelete _ => none
  | udpBcastForwarderRowDelete _ => none

/-- A call that makes the edit `e`, seen from the interfaces. -/
structure Edited (s s' : State) (e : RowEdit) : Prop where
  linked : Linked s'
  frame : ∀ other, other ≠ e.portName → s'.interface other = s.interface other
  servers : s'.serversOf e.portName = e.kept + e.stored
  node : ∀ n ks, s'.interface e.portName = some (n, ks) → n.bootpGw = e.bootpGw ∧
    ¬(e.bootpGw = 0 ∧ s.serversOf e.portName ≠ 0 ∧ e.kept = 0)
  kept : e.kept ≤ s.serversOf e.portName
  addressed : ∀ k ∈ e.stored, k.1 ≠ 0
  counted : (∀ k, s'.uses k ≤ 65535) → Counted s'

section edited

variable {c : Cache} {s' : State}

/-- Replacing the servers of an interface makes the edit. -/
theorem NodeFor.edited {s₁ : State} {p : NodePtr} {n : UdpfwdInterfaceNode}
    {portName : CString} {bootpGw : IpAddress}
    (h : NodeFor c.state s₁ p n portName bootpGw) {stale : ServerKey → Option ServerKey}
    (hstale : ∀ k k', stale k = some k' → k'.1 = k.1)
    (hidem : ∀ k k', stale k = some k' → stale k' = some k') {keep : ServerKey → Prop}
    [DecidablePred keep] (hkeep : ∀ k, stale k = some k ↔ ¬keep k) {addresses : List CString}
    {listed : IpAddress → ServerKey → Bool} {udpPort : UInt16}
    (hrun : replaceServers s₁ p addresses stale listed udpPort = .ok s') :
    Edited c.state s'
      { portName, bootpGw
        kept := (c.state.serversOf portName).filter keep
        addresses := validAddresses addresses
        stored := storedServers ((c.state.serversOf portName).filter keep) addresses listed
          udpPort } := by
  have hnonzero : ∀ k ∈ c.state.serversOf portName, k.1 ≠ 0 :=
    fun k hk => c.ne_zero_of_mem_serversOf hk
  have hchanges := h.changes c.inv.linked hnonzero hstale addresses listed udpPort
  have hcounted : (∀ k, s'.uses k ≤ 65535) → Counted s' :=
    replaceServers_counted h.inv h.node (by rwa [h.held]) hstale hrun
  have hsub := @sub_filterMap_eq_filter (c.state.serversOf portName) stale hidem keep _ hkeep
  have hle : (c.state.serversOf portName).filter keep ≤ c.state.serversOf portName :=
    Multiset.filter_le _ _
  have haddr : ∀ k ∈ storedServers ((c.state.serversOf portName).filter keep) addresses listed
      udpPort, k.1 ≠ 0 :=
    fun k hk => ne_zero_of_mem_newServers (List.mem_of_mem_take hk)
  rw [hrun, hsub] at hchanges
  -- no run that ends is one of the overruns
  cases hchanges with
  | freed _ hempty hvalid hinv hnone hframe _ =>
    obtain ⟨-, -, hzero⟩ := hempty
    rw [hsub] at hzero
    refine ⟨hinv.linked, hframe, ?_, ?_, hle, haddr, hcounted⟩
    · show s'.serversOf portName = _ + (storedServers _ _ _ _ : Multiset ServerKey)
      rw [serversOf_eq_zero hnone, hzero, storedServers, newServers, hvalid]
      rfl
    · intro m ks hm
      exact absurd (hnone.symm.trans hm) (by simp)
  | stored _ hempty _ hlinked hintf hgw hservers hframe _ _ =>
    rw [hsub] at hservers
    refine ⟨hlinked, hframe, hservers, ?_, hle, haddr, hcounted⟩
    intro m ks hm
    have heq := hintf.symm.trans hm
    simp only [Option.some.injEq, Prod.mk.injEq] at heq
    obtain ⟨rfl, -⟩ := heq
    refine ⟨hgw, fun hcase => hempty ⟨hcase.1, hcase.2.1, ?_⟩⟩
    rw [hsub]
    exact hcase.2.2

theorem udpBcastForwarderConfigChange_edited {rec : UdpBcastForwarderRow}
    {portName vrf : CString} (hport : rec.srcPort = some portName)
    (hvrf : rec.destVrf = some vrf)
    (hrun : udpfwdHandleUdpBcastForwarderConfigChange c.state rec = .ok s') :
    Edited c.state s' (udpBcastForwarderEdit c.state rec portName) := by
  obtain ⟨p, s₁, n, hlookup, hfor⟩ := lookupIntferfaceNode_eq c.inv portName
  unfold udpfwdHandleUdpBcastForwarderConfigChange at hrun
  simp only [hport, hvrf, hlookup] at hrun
  have hidem := udpBcastForwarderStale_idem rec.udpDport rec.ipv4UcastServer
  refine hfor.edited ?_ hidem ?_ hrun
  · intro k k' hk
    rw [((udpBcastForwarderStale_eq_some_iff _ _ _ _).mp hk).2.2]
  · intro k
    rw [udpBcastForwarderStale_eq_some_iff]
    tauto

theorem dhcpRelayConfigChange_edited {rec : DhcpRelayRow} {modified : DhcpRelayModified}
    {portName vrf : CString} (hport : rec.port = some portName) (hvrf : rec.vrf = some vrf)
    (hrun : udpfwdHandleDhcpRelayConfigChange c.state rec modified = .ok s') :
    Edited c.state s' (dhcpRelayEdit c.state rec modified portName) := by
  obtain ⟨p, s₁, n, hfor, -, heq⟩ := dhcpRelayConfigChange_eq c modified hport hvrf
  rw [heq] at hrun
  unfold dhcpRelayEdit
  cases hmodified : modified.ipv4UcastServer with
  | true =>
    rw [hmodified] at hrun
    simp only [if_true]
    have hidem := dhcpRelayStale_idem rec.ipv4UcastServer
    refine hfor.edited ?_ hidem ?_ hrun
    · intro k k' hk
      rw [((dhcpRelayStale_eq_some_iff _ _ _).mp hk).2]
    · intro k
      rw [dhcpRelayStale_eq_some_iff, Prod.ext_iff]
      tauto
  | false =>
    rw [hmodified] at hrun
    obtain rfl : s₁ = s' := Except.ok.inj hrun
    have hl := hfor.inv.linked
    have hintf := interface_eq hl hfor.node
    have hservers := serversOf_eq hl hfor.node
    rw [hfor.name] at hintf hservers
    refine ⟨hl, ?_, ?_, ?_, le_refl _, by simp, fun _ => hfor.inv.counted⟩
    · refine hfor.frame c.inv.linked hl (fun _ _ => ⟨rfl, rfl⟩) ?_
      intro m hm
      rw [hfor.node, Option.some.injEq] at hm
      rw [← hm, hfor.name]
    · show s₁.serversOf portName = c.state.serversOf portName + 0
      rw [hservers, hfor.held, add_zero]
    · intro m ks hm
      have heq' := hintf.symm.trans hm
      simp only [Option.some.injEq, Prod.mk.injEq] at heq'
      obtain ⟨rfl, -⟩ := heq'
      refine ⟨hfor.gw, fun hcase => hcase.2.1 hcase.2.2⟩

/-- The calls that make an edit. -/
theorem HandlerCall.edit_cases {s : State} {call : HandlerCall} {e : RowEdit}
    (h : call.edit s = some e) :
    (∃ rec modified portName vrf, call = .dhcpRelayConfigChange rec modified ∧
      rec.port = some portName ∧ rec.vrf = some vrf ∧ e = dhcpRelayEdit s rec modified portName) ∨
    (∃ rec portName vrf, call = .udpBcastForwarderConfigChange rec ∧
      rec.srcPort = some portName ∧ rec.destVrf = some vrf ∧
      e = udpBcastForwarderEdit s rec portName) := by
  cases call with
  | dhcpRelayRowDelete rows => exact absurd h (by simp [HandlerCall.edit])
  | udpBcastForwarderRowDelete rows => exact absurd h (by simp [HandlerCall.edit])
  | dhcpRelayConfigChange rec modified =>
    unfold HandlerCall.edit at h
    cases hport : rec.port with
    | none => simp [hport] at h
    | some portName =>
      cases hvrf : rec.vrf with
      | none => simp [hport, hvrf] at h
      | some vrf =>
        simp only [hport, hvrf, Option.some.injEq] at h
        exact Or.inl ⟨rec, modified, portName, vrf, rfl, hport, hvrf, h.symm⟩
  | udpBcastForwarderConfigChange rec =>
    unfold HandlerCall.edit at h
    cases hport : rec.srcPort with
    | none => simp [hport] at h
    | some portName =>
      cases hvrf : rec.destVrf with
      | none => simp [hport, hvrf] at h
      | some vrf =>
        simp only [hport, hvrf, Option.some.injEq] at h
        exact Or.inr ⟨rec, portName, vrf, rfl, hport, hvrf, h.symm⟩

/-- Every config-change call of a complete row makes the edit of its row. -/
theorem HandlerCall.edited {call : HandlerCall} {e : RowEdit} (hedit : call.edit c.state = some e)
    (hrun : call.apply c.state = .ok s') : Edited c.state s' e := by
  rcases HandlerCall.edit_cases hedit with hrelay | hforwarder
  · obtain ⟨rec, modified, portName, vrf, rfl, hport, hvrf, rfl⟩ := hrelay
    exact dhcpRelayConfigChange_edited hport hvrf hrun
  · obtain ⟨rec, portName, vrf, rfl, hport, hvrf, rfl⟩ := hforwarder
    exact udpBcastForwarderConfigChange_edited hport hvrf hrun

end edited

/-- The calls for a table in which rows were deleted. -/
def HandlerCall.Deletes : HandlerCall → Prop
  | dhcpRelayRowDelete _ => True
  | udpBcastForwarderRowDelete _ => True
  | dhcpRelayConfigChange _ _ => False
  | udpBcastForwarderConfigChange _ => False

/-- What a call that returns has done. -/
inductive Outcome (s s' : State) (call : HandlerCall) : Prop
  | edited (e : RowEdit) : call.edit s = some e → Edited s s' e → Outcome s s' call
  /-- The row is not complete. -/
  | unchanged : ¬call.Deletes → s' = s → Outcome s s' call
  | deleted : call.Deletes → CacheInv s' →
      (∀ portName, s'.serversOf portName ≤ s.serversOf portName) → Outcome s s' call

section outcome

variable {c : Cache} {s' : State}

/-- A row-delete call that returns keeps the invariant and visits every interface. -/
theorem dhcpRelayRowDelete_ok {rows : List DhcpRelayRow}
    (hrun : udpfwdHandleDhcpRelayRowDelete c.state rows = .ok s') :
    CacheInv s' ∧ Walked c.state s' ∧
      ∀ e ∈ c.state.intfHashTable,
        DhcpRelayRowDeleted rows e (c.state.view e.2) (s'.view e.2) := by
  have hnodup := c.inv.linked.table_pointers_nodup
  by_cases hover : ∃ e ∈ c.state.intfHashTable, DhcpRelayOverrun rows e (c.state.view e.2)
  · have hfail := foldlM_walk_error (dhcpRelayRowDeleteIntf_step rows)
      (dhcpRelayRowDeleteIntf_overrun rows) c.state.intfHashTable hnodup c.inv c.liveEntry hover
    exact absurd (hrun.symm.trans hfail) (by simp)
  · have hfits : ∀ e ∈ c.state.intfHashTable, ¬DhcpRelayOverrun rows e (c.state.view e.2) :=
      fun e he hcase => hover ⟨e, he, hcase⟩
    obtain ⟨s₁, hrun₁, hinv, -, -⟩ := foldlM_walk (dhcpRelayRowDeleteIntf_step rows)
      c.state.intfHashTable hnodup c.inv c.liveEntry hfits
    obtain ⟨s₂, hrun₂, hw, hlocal⟩ := dhcpRelayRowDelete_walk rows c hfits
    obtain rfl : s₁ = s' := Except.ok.inj (hrun₁.symm.trans hrun)
    obtain rfl : s₂ = s₁ := Except.ok.inj (hrun₂.symm.trans hrun)
    exact ⟨hinv, hw, hlocal⟩

theorem udpBcastForwarderRowDelete_ok {rows : List UdpBcastForwarderRow}
    (hrun : udpfwdHandleUdpBcastForwarderRowDelete c.state rows = .ok s') :
    CacheInv s' ∧ Walked c.state s' ∧
      ∀ portName,
        s'.serversOf portName = (c.state.serversOf portName).filter
          (fun k => ¬UdpBcastForwarderOrphan rows portName k) ∧
        s'.bootpGwOf portName = c.state.bootpGwOf portName := by
  have hnodup := c.inv.linked.table_pointers_nodup
  by_cases hover : ∃ e ∈ c.state.intfHashTable,
      UdpBcastForwarderOverrun rows e (c.state.view e.2)
  · have hfail := foldlM_walk_error (udpBcastForwarderRowDeleteIntf_step rows)
      (udpBcastForwarderRowDeleteIntf_overrun rows) c.state.intfHashTable hnodup c.inv
      c.liveEntry hover
    exact absurd (hrun.symm.trans hfail) (by simp)
  · obtain ⟨s₁, hrun₁, hinv, hw, hintf⟩ := udpBcastForwarderRowDelete_walk rows c
      fun e he hcase => hover ⟨e, he, hcase⟩
    obtain rfl : s₁ = s' := Except.ok.inj (hrun₁.symm.trans hrun)
    exact ⟨hinv, hw, hintf⟩

theorem dhcpRelayRowDelete_shrinks {rows : List DhcpRelayRow}
    (hrun : udpfwdHandleDhcpRelayRowDelete c.state rows = .ok s') (portName : CString) :
    s'.serversOf portName ≤ c.state.serversOf portName := by
  obtain ⟨-, hw, hlocal⟩ := dhcpRelayRowDelete_ok hrun
  obtain ⟨hfound, horphan⟩ := dhcpRelayRowDelete_interface rows c hw hlocal portName
  by_cases hrow : DhcpRelayPrefixRow rows portName
  · unfold State.serversOf
    rw [hfound hrow]
  · rw [(horphan hrow).1]
    exact Multiset.filter_le _ _

theorem HandlerCall.outcome {call : HandlerCall} (hrun : call.apply c.state = .ok s') :
    Outcome c.state s' call := by
  cases hedit : call.edit c.state with
  | some e => exact .edited e hedit (HandlerCall.edited hedit hrun)
  | none =>
    cases call with
    | dhcpRelayRowDelete rows =>
      exact .deleted trivial (dhcpRelayRowDelete_ok hrun).1 (dhcpRelayRowDelete_shrinks hrun)
    | udpBcastForwarderRowDelete rows =>
      obtain ⟨hinv, -, hintf⟩ := udpBcastForwarderRowDelete_ok hrun
      refine .deleted trivial hinv fun portName => ?_
      rw [(hintf portName).1]
      exact Multiset.filter_le _ _
    | dhcpRelayConfigChange rec modified =>
      have hnone : rec.port = none ∨ rec.vrf = none := by
        unfold HandlerCall.edit at hedit
        cases hport : rec.port with
        | none => exact Or.inl rfl
        | some portName =>
          cases hvrf : rec.vrf with
          | none => exact Or.inr rfl
          | some vrf => simp [hport, hvrf] at hedit
      have hskipped := (dhcpRelayConfigChange_skipped c.state modified hnone).1
      exact .unchanged (fun h => h) (Except.ok.inj (hrun.symm.trans hskipped))
    | udpBcastForwarderConfigChange rec =>
      have hnone : rec.srcPort = none ∨ rec.destVrf = none := by
        unfold HandlerCall.edit at hedit
        cases hport : rec.srcPort with
        | none => exact Or.inl rfl
        | some portName =>
          cases hvrf : rec.destVrf with
          | none => exact Or.inr rfl
          | some vrf => simp [hport, hvrf] at hedit
      have hskipped := (udpBcastForwarderConfigChange_skipped c.state hnone).1
      exact .unchanged (fun h => h) (Except.ok.inj (hrun.symm.trans hskipped))

/-! ## Runs -/

/-- The edit of the call gives no server more references than its counter can count. -/
def HandlerCall.CountsFit (s : State) (call : HandlerCall) : Prop :=
  ∀ e, call.edit s = some e → ∀ k ∈ e.stored,
    s.usesElsewhere e.portName k + (e.kept + e.stored).count k ≤ 65535

theorem Edited.uses_le {e : RowEdit} (h : Edited c.state s' e)
    (hfit : ∀ k ∈ e.stored,
      c.state.usesElsewhere e.portName k + (e.kept + e.stored).count k ≤ 65535)
    (k : ServerKey) : s'.uses k ≤ 65535 := by
  rw [h.linked.uses_split e.portName k, c.inv.linked.usesElsewhere_eq h.linked h.frame, h.servers]
  by_cases hk : k ∈ e.stored
  · exact hfit k hk
  · have huses := c.inv.uses_le k
    rw [c.inv.linked.uses_split e.portName k] at huses
    have hkept := Multiset.count_le_of_le k h.kept
    have hzero : (e.stored : Multiset ServerKey).count k = 0 := Multiset.count_eq_zero_of_notMem hk
    rw [Multiset.count_add, hzero]
    omega

/-- After a call whose counts fit the cache is in order again. -/
theorem HandlerCall.next {call : HandlerCall} (hfit : call.CountsFit c.state)
    (hrun : call.apply c.state = .ok s') : ∃ c' : Cache, c'.state = s' := by
  have hzero : ∀ portName, ∀ k ∈ c.state.serversOf portName, k.1 ≠ 0 :=
    fun portName k hk => c.ne_zero_of_mem_serversOf hk
  cases HandlerCall.outcome hrun with
  | unchanged _ hsame => exact ⟨c, hsame.symm⟩
  | deleted _ hinv hle =>
    have haddr : ∀ portName, ∀ k ∈ s'.serversOf portName, k.1 ≠ 0 :=
      fun portName k hk => hzero portName k (Multiset.mem_of_le (hle portName) hk)
    exact ⟨⟨s', hinv, addressed_of_serversOf hinv.linked haddr⟩, rfl⟩
  | edited e hedit h =>
    have hinv : CacheInv s' := ⟨h.linked, h.counted (h.uses_le (hfit e hedit))⟩
    have haddr : ∀ portName, ∀ k ∈ s'.serversOf portName, k.1 ≠ 0 := by
      intro portName k hk
      by_cases hname : portName = e.portName
      · rw [hname, h.servers] at hk
        rcases Multiset.mem_add.mp hk with hkept | hstored
        · exact hzero e.portName k (Multiset.mem_of_le h.kept hkept)
        · exact h.addressed k hstored
      · refine hzero portName k ?_
        unfold State.serversOf at hk ⊢
        rwa [h.frame portName hname] at hk
    exact ⟨⟨s', hinv, addressed_of_serversOf hinv.linked haddr⟩, rfl⟩

/-- The states of all runs of handler calls from the empty tables in which every call meets
the condition. -/
inductive HandlerRun (hashInt : UInt32 → UInt32 → UInt32) (meets : State → HandlerCall → Prop) :
    State → Prop
  | init : HandlerRun hashInt meets (State.empty hashInt)
  | step {s s' : State} (call : HandlerCall) : HandlerRun hashInt meets s → meets s call →
      call.apply s = .ok s' → HandlerRun hashInt meets s'

def Cache.empty (hashInt : UInt32 → UInt32 → UInt32) : Cache where
  state := State.empty hashInt
  inv := .empty hashInt
  addressed := fun _ he => absurd he List.not_mem_nil

/-- What holds of the empty tables and is kept by every call holds of every state of a run. -/
theorem HandlerRun.invariant {hashInt : UInt32 → UInt32 → UInt32}
    {meets : State → HandlerCall → Prop} {inv : State → Prop}
    (hfit : ∀ s call, meets s call → call.CountsFit s) (hinit : inv (State.empty hashInt))
    (hstep : ∀ (c : Cache) call s', inv c.state → meets c.state call →
      call.apply c.state = .ok s' → inv s')
    {s : State} (h : HandlerRun hashInt meets s) : (∃ c : Cache, c.state = s) ∧ inv s := by
  induction h with
  | init => exact ⟨⟨Cache.empty hashInt, rfl⟩, hinit⟩
  | step call _ hmeets hrun ih =>
    obtain ⟨⟨c, rfl⟩, hinv⟩ := ih
    exact ⟨HandlerCall.next (hfit _ _ hmeets) hrun, hstep c call _ hinv hmeets hrun⟩

end outcome

end Udpfwd
end IpApps
