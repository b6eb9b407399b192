import IpApps.Udpfwd.HandlerRuns

/-!
# The arrays on the stack

The handlers collect servers in arrays of sixteen entries that were filled with zeros, and walk
them up to the first zero address, so fifteen entries are all that may be collected. An interface
has eight helpers and eight other servers at most, and a handler that looks at one kind never gets
further than eight. `udpfwd_handle_dhcp_relay_config_change` takes both kinds for helpers.
-/

namespace IpApps
namespace Udpfwd

open ExceptLoops

/-! ## The lists of a call -/

/-- A list ends in its array: collecting it does not leave the array, and walking it does not
either, as the last entry is still zero. -/
structure Terminated (list : Except Fault (List ServerKey)) : Prop where
  collected : list ≠ .error .scratchBounds
  length : ∀ servers, list = .ok servers → servers.length ≤ 15
  scanned : ∀ servers, list = .ok servers → ∀ body s,
    forEachServer servers body s
      = (servers.takeWhile fun server => server.1 ≠ 0).foldlM body s

/-- The lists of `replaceServers`, the second one after the deletion of the first. Every list
comes with the interface whose servers are collected. -/
def replaceServersLists (s : State) (portName : CString) (intfNode : NodePtr)
    (addresses : List CString) (stale : ServerKey → Option ServerKey)
    (listed : IpAddress → ServerKey → Bool) (udpPort : UInt16) :
    List (CString × Except Fault (List ServerKey)) :=
  let gone := do
    collectServers s (← s.node intfNode) stale
  let new := do
    let s ← removeServers intfNode (← gone) s
    collectNewServers s intfNode addresses listed udpPort
  [(portName, gone), (portName, new)]

/-- The lists of a walk over the interfaces, up to the one where it fails. -/
def walkLists (list : State → CString × NodePtr → Option (Except Fault (List ServerKey)))
    (body : State → CString × NodePtr → Except Fault State) :
    State → List (CString × NodePtr) → List (CString × Except Fault (List ServerKey))
  | _, [] => []
  | s, node :: nodes =>
    ((list s node).map fun servers => (node.1, servers)).toList ++
      match body s node with
      | .ok s => walkLists list body s nodes
      | .error _ => []

/-- The list of `dhcpRelayRowDeleteIntf`. -/
def dhcpRelayRowDeleteList (rows : List DhcpRelayRow) (s : State) (node : CString × NodePtr) :
    Option (Except Fault (List ServerKey)) :=
  let found := rows.any fun rec =>
    match rec.port with
    | some name => Libc.strncmp name node.1 name.length = 0
    | none => false
  if found then none
  else some do
    let n ← s.node node.2
    let s := s.setNode node.2 { n with bootpGw := 0 }
    collectServers s n fun server => if server.2 = dhcpsPort then some server else none

/-- The list of `udpBcastForwarderRowDeleteIntf`. -/
def udpBcastForwarderRowDeleteList (rows : List UdpBcastForwarderRow) (s : State)
    (node : CString × NodePtr) : Option (Except Fault (List ServerKey)) :=
  some do
    let n ← s.node node.2
    collectServers s n fun server =>
      if server.2 = dhcpsPort then none
      else if rows.any (udpBcastForwarderRowKeeps n.portName server) then none
      else some server

/-- The lists that a call collects. -/
def HandlerCall.lists (s : State) : HandlerCall → List (CString × Except Fault (List ServerKey))
  | dhcpRelayRowDelete rows =>
    walkLists (dhcpRelayRowDeleteList rows) (dhcpRelayRowDeleteIntf rows) s s.intfHashTable
  | udpBcastForwarderRowDelete rows =>
    walkLists (udpBcastForwarderRowDeleteList rows) (udpBcastForwarderRowDeleteIntf rows) s
      s.intfHashTable
  | dhcpRelayConfigChange rec modified =>
    match rec.port, rec.vrf with
    | some portName, some _ =>
      let (intfNode, s) := lookupIntferfaceNode s portName
      let configured : Except Fault State :=
        if modified.otherConfig then do
          let n ← s.node intfNode
          pure (s.setNode intfNode
            { n with bootpGw := changedBootpGw rec.bootpGateway n.bootpGw })
        else pure s
      match configured with
      | .error _ => []
      | .ok s =>
        if !modified.ipv4UcastServer then []
        else replaceServersLists s portName intfNode rec.ipv4UcastServer
          (fun server => if serverIpExists server.1 rec.ipv4UcastServer then none
            else some (server.1, dhcpsPort))
          (fun id server => server.1 = id) dhcpsPort
    | _, _ => []
  | udpBcastForwarderConfigChange rec =>
    match rec.srcPort, rec.destVrf with
    | some portName, some _ =>
      let (intfNode, s) := lookupIntferfaceNode s portName
      replaceServersLists s portName intfNode rec.ipv4UcastServer
        (fun server =>
          if !(serverIpExists server.1 rec.ipv4UcastServer && server.2.toNat = rec.udpDport) &&
            server.2.toNat = rec.udpDport
          then some server else none)
        (fun id server => server.1 = id ∧ server.2.toNat = rec.udpDport)
        (UInt16.ofNat (rec.udpDport % 65536).toNat)
    | _, _ => []

/-! ## Lists that end in the array -/

section terminated

theorem Terminated.of_error {err : Fault} (h : err ≠ .scratchBounds) :
    Terminated (.error err) := by
  refine ⟨?_, ?_, ?_⟩
  · intro heq
    exact h (Except.error.inj heq)
  · intro servers heq
    exact absurd heq (by simp)
  · intro servers heq
    exact absurd heq (by simp)

/-- The walk over a list shorter than the array. -/
theorem forEachServer_of_short {servers : List ServerKey}
    (hlen : servers.length < maxUdpBcastServerPerInterface)
    (body : State → ServerKey → Except Fault State) (s : State) :
    forEachServer servers body s
      = (servers.takeWhile fun server => server.1 ≠ 0).foldlM body s := by
  have hfilled := (List.takeWhile_sublist (l := servers)
    fun server : ServerKey => decide (server.1 ≠ 0)).length_le
  have hends : (servers.takeWhile fun server => decide (server.1 ≠ 0)).length
      ≠ maxUdpBcastServerPerInterface := by omega
  unfold forEachServer
  simp only [hends, if_false]
  generalize (servers.takeWhile fun server => decide (server.1 ≠ 0)).foldlM body s = r
  cases r <;> rfl

theorem terminated_ok_iff {servers : List ServerKey} :
    Terminated (.ok servers) ↔ servers.length < maxUdpBcastServerPerInterface := by
  constructor
  · intro h
    exact Nat.lt_succ_of_le (h.length servers rfl)
  · intro hlen
    refine ⟨by simp, ?_, ?_⟩
    · intro servers' heq
      rw [← Except.ok.inj heq]
      exact Nat.le_of_lt_succ hlen
    · intro servers' heq
      rw [← Except.ok.inj heq]
      exact forEachServer_of_short hlen

theorem not_terminated_scratchBounds : ¬Terminated (.error .scratchBounds) :=
  fun h => h.collected rfl

end terminated

/-! ## Config changes -/

section replace

variable {s : State} {p : NodePtr} {n : UdpfwdInterfaceNode} {portName : CString}

/-- Both lists end in the array if and only if no scan and no write of `replaceServers` leaves
it. -/
theorem replaceServersLists_iff (h : CacheInv s) (hp : s.nodes p = some n)
    (hnonzero : ∀ k ∈ s.held p, k.1 ≠ 0) {stale : ServerKey → Option ServerKey}
    (hstale : ∀ k k', stale k = some k' → k'.1 = k.1) (addresses : List CString)
    (listed : IpAddress → ServerKey → Bool) (udpPort : UInt16) :
    (∀ l ∈ replaceServersLists s portName p addresses stale listed udpPort, Terminated l.2) ↔
      replaceServers s p addresses stale listed udpPort ≠ .error .scratchBounds := by
  set gone := (s.keysAt p).filterMap stale with hgone
  have hgonezero : ∀ k ∈ gone, k.1 ≠ 0 := by
    intro k' hk'
    obtain ⟨k, hk, hpick⟩ := List.mem_filterMap.mp hk'
    rw [hstale k k' hpick]
    exact hnonzero k (mem_held.mpr hk)
  have hcollect : (s.node p >>= fun n => collectServers s n stale) = .ok gone := by
    rw [s.node_eq_ok hp, ok_bind, collectServers_eq h.linked hp]
  have hunfold : replaceServers s p addresses stale listed udpPort = (removeServers p gone s >>=
      fun s => collectNewServers s p addresses listed udpPort >>= fun new =>
        storeServers p new s) := by
    unfold replaceServers
    rw [s.node_eq_ok hp, ok_bind, collectServers_eq h.linked hp, ok_bind]
  unfold replaceServersLists
  rw [List.forall_mem_cons, List.forall_mem_singleton, hcollect, ok_bind, terminated_ok_iff,
    hunfold]
  -- the first list fills its array, or frees the node, or leaves it to the second list
  rcases removeServers_eq h hp hgonezero (List.length_filterMap_le _ _) with
    hfull | hfreed | hstays
  · obtain ⟨hlen, hrun⟩ := hfull
    rw [hrun]
    exact iff_of_false (fun hcase => Nat.ne_of_lt hcase.1 hlen) fun hne => hne rfl
  · -- the node is gone, and nothing is collected after that
    obtain ⟨hlen, -, s', hrun, -, hfrees⟩ := hfreed
    rw [hrun, ok_bind, ok_bind, collectNewServers_freed hfrees.node]
    split
    · refine iff_of_true ⟨hlen, terminated_ok_iff.mpr (by decide)⟩ ?_
      show Except.ok s' ≠ _
      simp
    · exact iff_of_true ⟨hlen, Terminated.of_error (by decide)⟩ (by simp [bind, Except.bind])
  · obtain ⟨hlen, -, s', hrun, hinv, htouch, -⟩ := hstays
    obtain ⟨n', hp', -⟩ := htouch.node n hp
    rw [hrun, ok_bind, ok_bind, collectNewServers_eq hinv.linked hp']
    set new := newServers (s'.held p) addresses listed udpPort with hnew
    split
    · rename_i hle
      rw [ok_bind, terminated_ok_iff]
      -- the second list fills its array or ends in it
      rcases storeServers_eq hinv.linked hp'
        (fun k hk => ne_zero_of_mem_newServers hk) hle with hfull | hstored
      · rw [hfull.2]
        exact iff_of_false (fun hcase => Nat.ne_of_lt hcase.2 hfull.1) fun hne => hne rfl
      · obtain ⟨hshort, s'', hrun', -⟩ := hstored
        rw [hrun']
        exact iff_of_true ⟨hlen, hshort⟩ (by simp)
    · exact iff_of_false (fun hcase => not_terminated_scratchBounds hcase.2) fun hne => hne rfl

end replace

section change

variable (c : Cache) {portName vrf : CString}

/-- The handler and its lists, up to the point where it looks at the servers. -/
theorem dhcpRelayConfigChange_lists_eq {rec : DhcpRelayRow} (modified : DhcpRelayModified)
    (hport : rec.port = some portName) (hvrf : rec.vrf = some vrf) :
    ∃ p s₁ n, NodeFor c.state s₁ p n portName
        (dhcpRelayBootpGw c.state rec modified portName) ∧
      (HandlerCall.dhcpRelayConfigChange rec modified).apply c.state =
        (if !modified.ipv4UcastServer then .ok s₁
        else replaceServers s₁ p rec.ipv4UcastServer (dhcpRelayStale rec.ipv4UcastServer)
          (fun id server => server.1 = id) dhcpsPort) ∧
      (HandlerCall.dhcpRelayConfigChange rec modified).lists c.state =
        if !modified.ipv4UcastServer then []
        else replaceServersLists s₁ portName p rec.ipv4UcastServer
          (dhcpRelayStale rec.ipv4UcastServer) (fun id server => server.1 = id) dhcpsPort := by
  obtain ⟨p, s₁, n, hlookup, hfor⟩ := lookupIntferfaceNode_eq c.inv portName
  unfold HandlerCall.apply HandlerCall.lists udpfwdHandleDhcpRelayConfigChange dhcpRelayBootpGw
  simp only [hport, hvrf, hlookup]
  -- a changed gateway is written to the node before the lists are made
  cases modified.otherConfig with
  | false => exact ⟨p, s₁, n, hfor, rfl, rfl⟩
  | true =>
    refine ⟨p, _, _, hfor.setBootpGw (changedBootpGw rec.bootpGateway _), ?_, ?_⟩
    · simp only [if_true, s₁.node_eq_ok hfor.node, ok_bind, hfor.gw]
      rfl
    · simp only [if_true, s₁.node_eq_ok hfor.node, ok_bind, hfor.gw]
      rfl

theorem udpBcastForwarderConfigChange_lists_eq {rec : UdpBcastForwarderRow}
    (hport : rec.srcPort = some portName) (hvrf : rec.destVrf = some vrf) :
    ∃ p s₁ n, NodeFor c.state s₁ p n portName (c.state.bootpGwOf portName) ∧
      (HandlerCall.udpBcastForwarderConfigChange rec).apply c.state =
        replaceServers s₁ p rec.ipv4UcastServer
          (udpBcastForwarderStale rec.udpDport rec.ipv4UcastServer)
          (fun id server => server.1 = id ∧ server.2.toNat = rec.udpDport)
          (UInt16.ofNat (rec.udpDport % 65536).toNat) ∧
      (HandlerCall.udpBcastForwarderConfigChange rec).lists c.state =
        replaceServersLists s₁ portName p rec.ipv4UcastServer
          (udpBcastForwarderStale rec.udpDport rec.ipv4UcastServer)
          (fun id server => server.1 = id ∧ server.2.toNat = rec.udpDport)
          (UInt16.ofNat (rec.udpDport % 65536).toNat) := by
  obtain ⟨p, s₁, n, hlookup, hfor⟩ := lookupIntferfaceNode_eq c.inv portName
  unfold HandlerCall.apply HandlerCall.lists udpfwdHandleUdpBcastForwarderConfigChange
  simp only [hport, hvrf, hlookup]
  exact ⟨p, s₁, n, hfor, rfl, rfl⟩

theorem dhcpRelayConfigChange_lists_skipped {rec : DhcpRelayRow} (modified : DhcpRelayModified)
    (s : State) (hnone : rec.port = none ∨ rec.vrf = none) :
    (HandlerCall.dhcpRelayConfigChange rec modified).lists s = [] := by
  unfold HandlerCall.lists
  rcases hnone with hport | hvrf
  · simp only [hport]
  · cases hport : rec.port with
    | none => simp only [hport]
    | some portName => simp only [hport, hvrf]

theorem udpBcastForwarderConfigChange_lists_skipped {rec : UdpBcastForwarderRow} (s : State)
    (hnone : rec.srcPort = none ∨ rec.destVrf = none) :
    (HandlerCall.udpBcastForwarderConfigChange rec).lists s = [] := by
  unfold HandlerCall.lists
  rcases hnone with hport | hvrf
  · simp only [hport]
  · cases hport : rec.srcPort with
    | none => simp only [hport]
    | some portName => simp only [hport, hvrf]

end change

/-! ## Row deletion -/

section walk

variable {list : State → CString × NodePtr → Option (Except Fault (List ServerKey))}
  {body : State → CString × NodePtr → Except Fault State}
  {fails : CString × NodePtr → Option UdpfwdInterfaceNode × List ServerKey → Prop}
  {local' : CString × NodePtr → Option UdpfwdInterfaceNode × List ServerKey →
    Option UdpfwdInterfaceNode × List ServerKey → Prop}

/-- A list of a walk is collected at an entry, from what the walk found there at first. -/
theorem walkLists_mem
    (hstep : ∀ s e, CacheInv s → LiveEntry e (s.view e.2) → ¬fails e (s.view e.2) →
      ∃ s', body s e = .ok s' ∧ CacheInv s' ∧ local' e (s.view e.2) (s'.view e.2) ∧
        ∀ p, p ≠ e.2 → s'.view p = s.view p)
    (hfail : ∀ s e, CacheInv s → LiveEntry e (s.view e.2) → fails e (s.view e.2) →
      body s e = .error .scratchBounds)
    (es : List (CString × NodePtr)) : ∀ {s : State}, (es.map Prod.snd).Nodup → CacheInv s →
      (∀ e ∈ es, LiveEntry e (s.view e.2)) → ∀ l ∈ walkLists list body s es,
      ∃ e ∈ es, l.1 = e.1 ∧ ∃ s', CacheInv s' ∧ s'.view e.2 = s.view e.2 ∧
        list s' e = some l.2 := by
  induction es with
  | nil =>
    intro s _ _ _ l hl
    exact absurd hl List.not_mem_nil
  | cons e es ih =>
    intro s hnodup hinv hlive l hl
    rw [List.map_cons, List.nodup_cons] at hnodup
    rw [List.forall_mem_cons] at hlive
    rw [walkLists, List.mem_append] at hl
    rcases hl with hhere | hlater
    · rw [Option.mem_toList, Option.map_eq_some_iff] at hhere
      obtain ⟨servers, hlist, rfl⟩ := hhere
      exact ⟨e, List.mem_cons_self, rfl, s, hinv, rfl, hlist⟩
    · by_cases hfails : fails e (s.view e.2)
      · rw [hfail s e hinv hlive.1 hfails] at hlater
        exact absurd hlater List.not_mem_nil
      · obtain ⟨s₁, hrun, hinv₁, -, hframe⟩ := hstep s e hinv hlive.1 hfails
        -- the round at `e` leaves the nodes of the entries behind it
        have hviews : ∀ e' ∈ es, s₁.view e'.2 = s.view e'.2 := by
          intro e' he'
          apply hframe
          intro heq
          exact hnodup.1 (heq ▸ List.mem_map_of_mem he')
        rw [hrun] at hlater
        obtain ⟨e', he', hname, s', hinv', hview, hlist⟩ := ih hnodup.2 hinv₁
          (fun e' he' => by rw [hviews e' he']; exact hlive.2 e' he') l hlater
        exact ⟨e', List.mem_cons_of_mem _ he', hname, s', hinv', hview.trans (hviews e' he'),
          hlist⟩

/-- All lists of a walk end in the array if and only if the walk does not fail. -/
theorem walkLists_iff
    (hstep : ∀ s e, CacheInv s → LiveEntry e (s.view e.2) → ¬fails e (s.view e.2) →
      ∃ s', body s e = .ok s' ∧ CacheInv s' ∧ local' e (s.view e.2) (s'.view e.2) ∧
        ∀ p, p ≠ e.2 → s'.view p = s.view p)
    (hfail : ∀ s e, CacheInv s → LiveEntry e (s.view e.2) → fails e (s.view e.2) →
      body s e = .error .scratchBounds)
    (hlist : ∀ s e, CacheInv s → LiveEntry e (s.view e.2) →
      ((∀ servers, list s e = some servers → Terminated servers) ↔ ¬fails e (s.view e.2)))
    (es : List (CString × NodePtr)) : ∀ {s : State}, (es.map Prod.snd).Nodup → CacheInv s →
      (∀ e ∈ es, LiveEntry e (s.view e.2)) →
      ((∀ l ∈ walkLists list body s es, Terminated l.2) ↔
        es.foldlM body s ≠ .error .scratchBounds) := by
  induction es with
  | nil =>
    intro s _ _ _
    exact iff_of_true (fun l hl => absurd hl List.not_mem_nil) (by simp [pure, Except.pure])
  | cons e es ih =>
    intro s hnodup hinv hlive
    rw [List.map_cons, List.nodup_cons] at hnodup
    rw [List.forall_mem_cons] at hlive
    have hhere : (∀ l ∈ ((list s e).map fun servers => (e.1, servers)).toList, Terminated l.2) ↔
        ¬fails e (s.view e.2) := by
      rw [← hlist s e hinv hlive.1]
      cases list s e with
      | none => simp
      | some servers => simp
    rw [walkLists, List.forall_mem_append, hhere, List.foldlM_cons]
    by_cases hfails : fails e (s.view e.2)
    · rw [hfail s e hinv hlive.1 hfails]
      exact iff_of_false (fun hcase => hcase.1 hfails) fun hne => hne rfl
    · obtain ⟨s₁, hrun, hinv₁, -, hframe⟩ := hstep s e hinv hlive.1 hfails
      have hviews : ∀ e' ∈ es, s₁.view e'.2 = s.view e'.2 := by
        intro e' he'
        apply hframe
        intro heq
        exact hnodup.1 (heq ▸ List.mem_map_of_mem he')
      rw [hrun, ok_bind, ← ih hnodup.2 hinv₁
        fun e' he' => by rw [hviews e' he']; exact hlive.2 e' he']
      exact and_iff_right hfails

end walk

section rowDelete

variable {s : State} {e : CString × NodePtr}

theorem dhcpRelayRowDeleteList_eq (rows : List DhcpRelayRow) (h : CacheInv s)
    (hlive : LiveEntry e (s.view e.2)) :
    (DhcpRelayPrefixRow rows e.1 → dhcpRelayRowDeleteList rows s e = none) ∧
    (¬DhcpRelayPrefixRow rows e.1 → dhcpRelayRowDeleteList rows s e
      = some (.ok ((s.view e.2).2.filter fun k => k.2 = dhcpsPort))) := by
  obtain ⟨⟨n, hp, -⟩, -⟩ := hlive
  unfold dhcpRelayRowDeleteList
  constructor
  · intro hrow
    exact if_pos ((dhcpRelayRow_found_iff rows e.1).mpr hrow)
  · intro hrow
    refine (if_neg (mt (dhcpRelayRow_found_iff rows e.1).mp hrow)).trans ?_
    obtain ⟨hlinked, hkeys, -⟩ := setBootpGw_eq h.linked hp 0
    have hcollect := collectServers_eq hlinked State.nodes_setNode_self fun server =>
      if server.2 = dhcpsPort then some server else none
    rw [hkeys, filterMap_ite_eq_filter] at hcollect
    have hnode := s.node_eq_ok hp
    rw [hnode, ok_bind]
    exact congrArg some hcollect

theorem udpBcastForwarderRowDeleteList_eq (rows : List UdpBcastForwarderRow) (h : CacheInv s)
    (hlive : LiveEntry e (s.view e.2)) : udpBcastForwarderRowDeleteList rows s e
      = some (.ok ((s.view e.2).2.filter (UdpBcastForwarderOrphan rows e.1))) := by
  obtain ⟨⟨n, hp, hname⟩, -⟩ := hlive
  unfold udpBcastForwarderRowDeleteList
  have hnode := s.node_eq_ok hp
  rw [hnode, ok_bind, collectServers_orphans rows h.linked hp, hname]
  rfl

end rowDelete

/-! ## What the handlers collect -/

section calls

variable (c : Cache)

theorem Linked.terminated_filter_iff {s : State} (h : Linked s) (p : NodePtr)
    (P : ServerKey → Prop) [DecidablePred P] :
    Terminated (.ok ((s.view p).2.filter P)) ↔
      ((s.view p).2.filter P).length ≠ maxUdpBcastServerPerInterface := by
  have hle := Nat.le_trans (List.length_filter_le P (s.view p).2) (h.length_keysAt_le p)
  rw [terminated_ok_iff]
  omega

/-- A scan or a write of a call leaves an array if and only if one of its lists does not end in
it. -/
theorem HandlerCall.lists_iff (call : HandlerCall) :
    (∀ l ∈ call.lists c.state, Terminated l.2) ↔
      call.apply c.state ≠ .error .scratchBounds := by
  have hnodup := c.inv.linked.table_pointers_nodup
  cases call with
  | dhcpRelayRowDelete rows =>
    -- one list for each interface of the table, in the order of the walk
    refine walkLists_iff (dhcpRelayRowDeleteIntf_step rows) (dhcpRelayRowDeleteIntf_overrun rows)
      ?_ _ hnodup c.inv c.liveEntry
    intro s e hinv hlive
    obtain ⟨hfound, horphan⟩ := dhcpRelayRowDeleteList_eq rows hinv hlive
    by_cases hrow : DhcpRelayPrefixRow rows e.1
    · rw [hfound hrow]
      exact iff_of_true (by simp) fun hover => hover.1 hrow
    · have hends := hinv.linked.terminated_filter_iff e.2 fun k => k.2 = dhcpsPort
      simp only [horphan hrow, Option.some.injEq, forall_eq', hends, DhcpRelayOverrun]
      tauto
  | udpBcastForwarderRowDelete rows =>
    refine walkLists_iff (udpBcastForwarderRowDeleteIntf_step rows)
      (udpBcastForwarderRowDeleteIntf_overrun rows) ?_ _ hnodup c.inv c.liveEntry
    intro s e hinv hlive
    have hends := hinv.linked.terminated_filter_iff e.2 (UdpBcastForwarderOrphan rows e.1)
    simp only [udpBcastForwarderRowDeleteList_eq rows hinv hlive, Option.some.injEq, forall_eq',
      hends]
    rfl
  | dhcpRelayConfigChange rec modified =>
    by_cases hnone : rec.port = none ∨ rec.vrf = none
    · rw [dhcpRelayConfigChange_lists_skipped modified c.state hnone, HandlerCall.apply,
        (dhcpRelayConfigChange_skipped c.state modified hnone).1]
      exact iff_of_true (fun l hl => absurd hl List.not_mem_nil) (by simp)
    · obtain ⟨portName, hport⟩ := Option.ne_none_iff_exists'.mp (not_or.mp hnone).1
      obtain ⟨vrf, hvrf⟩ := Option.ne_none_iff_exists'.mp (not_or.mp hnone).2
      obtain ⟨p, s₁, n, hfor, hrun, hlists⟩ :=
        dhcpRelayConfigChange_lists_eq c modified hport hvrf
      rw [hrun, hlists]
      cases modified.ipv4UcastServer with
      | false => exact iff_of_true (fun l hl => absurd hl List.not_mem_nil) (by simp)
      | true =>
        refine replaceServersLists_iff hfor.inv hfor.node ?_ dhcpRelayStale_fst _ _ _
        rw [hfor.held]
        exact fun k hk => c.ne_zero_of_mem_serversOf hk
  | udpBcastForwarderConfigChange rec =>
    by_cases hnone : rec.srcPort = none ∨ rec.destVrf = none
    · rw [udpBcastForwarderConfigChange_lists_skipped c.state hnone, HandlerCall.apply,
        (udpBcastForwarderConfigChange_skipped c.state hnone).1]
      exact iff_of_true (fun l hl => absurd hl List.not_mem_nil) (by simp)
    · obtain ⟨portName, hport⟩ := Option.ne_none_iff_exists'.mp (not_or.mp hnone).1
      obtain ⟨vrf, hvrf⟩ := Option.ne_none_iff_exists'.mp (not_or.mp hnone).2
      obtain ⟨p, s₁, n, hfor, hrun, hlists⟩ :=
        udpBcastForwarderConfigChange_lists_eq c hport hvrf
      rw [hrun, hlists]
      refine replaceServersLists_iff hfor.inv hfor.node ?_ udpBcastForwarderStale_fst _ _ _
      rw [hfor.held]
      exact fun k hk => c.ne_zero_of_mem_serversOf hk

end calls

/-! ## Interfaces within the limits -/

/-- An interface has at most eight helpers, and at most eight servers on other ports. -/
structure WithinLimits (s : State) (portName : CString) : Prop where
  helpers : ((s.serversOf portName).filter (·.2 = dhcpsPort)).card ≤ 8
  others : ((s.serversOf portName).filter (·.2 ≠ dhcpsPort)).card ≤ 8

/-- The row of a call has at most eight addresses. -/
def HandlerCall.RowLimit : HandlerCall → Prop
  | dhcpRelayConfigChange rec _ => rec.ipv4UcastServer.length ≤ 8
  | udpBcastForwarderConfigChange rec => rec.ipv4UcastServer.length ≤ 8
  | dhcpRelayRowDelete _ => True
  | udpBcastForwarderRowDelete _ => True

/-- The servers of a `DHCP_Relay` row change where all sixteen slots hold other addresses. -/
def HandlerCall.ReplacesAll (s : State) (portName : CString) : HandlerCall → Prop
  | dhcpRelayConfigChange rec modified =>
    rec.port = some portName ∧ rec.vrf ≠ none ∧ modified.ipv4UcastServer = true ∧
      (s.serversOf portName).card = maxUdpBcastServerPerInterface ∧
      ∀ k ∈ s.serversOf portName, k.1 ∉ validAddresses rec.ipv4UcastServer
  | udpBcastForwarderConfigChange _ => False
  | dhcpRelayRowDelete _ => False
  | udpBcastForwarderRowDelete _ => False

section limits

variable {c : Cache} {portName : CString}

theorem WithinLimits.card_le {s : State} (h : WithinLimits s portName) :
    (s.serversOf portName).card ≤ maxUdpBcastServerPerInterface := by
  have hsplit := Multiset.filter_add_not (·.2 = dhcpsPort) (s.serversOf portName)
  have hcard := congrArg Multiset.card hsplit
  rw [Multiset.card_add] at hcard
  have hhelpers := h.helpers
  have hothers : ((s.serversOf portName).filter fun k => ¬k.2 = dhcpsPort).card ≤ 8 := h.others
  unfold maxUdpBcastServerPerInterface
  omega

/-- The servers on one port are of one kind. -/
theorem WithinLimits.card_port_le {s : State} (h : WithinLimits s portName) (udpDport : ℤ) :
    ((s.serversOf portName).filter fun k => k.2.toNat = udpDport).card ≤ 8 := by
  by_cases hport : udpDport = dhcpsPort.toNat
  · refine Nat.le_trans (Multiset.card_le_card ?_) h.helpers
    refine Multiset.monotone_filter_right _ fun k hk => ?_
    rw [hport, Nat.cast_inj] at hk
    exact UInt16.toNat_inj.mp hk
  · refine Nat.le_trans (Multiset.card_le_card ?_) h.others
    refine Multiset.monotone_filter_right _ fun k hk heq => ?_
    rw [heq] at hk
    exact hport hk.symm

/-- With few new servers only a full array of deleted ones fails. -/
theorem Changes.ne_scratchBounds_iff {s : State} {bootpGw : IpAddress}
    {gone : Multiset ServerKey} {addresses : List CString} {new : List ServerKey}
    {r : Except Fault State} (h : Changes s portName bootpGw gone addresses new r)
    (hnew : new.length < maxUdpBcastServerPerInterface) :
    r ≠ .error .scratchBounds ↔ gone.card < maxUdpBcastServerPerInterface := by
  cases h with
  | manyGone hfull => exact iff_of_false (fun hne => hne rfl) (Nat.not_lt_of_le hfull.ge)
  | readFreed hlen _ _ => exact iff_of_true (by simp) hlen
  | freed hlen _ _ _ _ _ _ => exact iff_of_true (by simp) hlen
  | manyNew _ _ hmany => exact absurd hmany (Nat.not_le_of_lt hnew)
  | stored hlen _ _ _ _ _ _ _ _ _ => exact iff_of_true (by simp) hlen

/-! ## Config changes within the limits -/

theorem replaceServersLists_name {s : State} {p : NodePtr} {addresses : List CString}
    {stale : ServerKey → Option ServerKey} {listed : IpAddress → ServerKey → Bool}
    {udpPort : UInt16} {l : CString × Except Fault (List ServerKey)}
    (hl : l ∈ replaceServersLists s portName p addresses stale listed udpPort) :
    l.1 = portName := by
  rcases List.mem_cons.mp hl with rfl | hnew
  · rfl
  · rw [List.mem_singleton.mp hnew]

/-- All lists of a config change are about the interface of its row. -/
theorem dhcpRelayConfigChange_lists_name {rec : DhcpRelayRow} {modified : DhcpRelayModified}
    {l : CString × Except Fault (List ServerKey)}
    (hl : l ∈ (HandlerCall.dhcpRelayConfigChange rec modified).lists c.state) :
    rec.port = some l.1 ∧ rec.vrf ≠ none ∧ modified.ipv4UcastServer = true := by
  by_cases hnone : rec.port = none ∨ rec.vrf = none
  · rw [dhcpRelayConfigChange_lists_skipped modified c.state hnone] at hl
    exact absurd hl List.not_mem_nil
  · obtain ⟨name, hport⟩ := Option.ne_none_iff_exists'.mp (not_or.mp hnone).1
    obtain ⟨vrf, hvrf⟩ := Option.ne_none_iff_exists'.mp (not_or.mp hnone).2
    obtain ⟨p, s₁, n, -, -, hlists⟩ := dhcpRelayConfigChange_lists_eq c modified hport hvrf
    rw [hlists] at hl
    cases hmodified : modified.ipv4UcastServer with
    | false =>
      rw [hmodified] at hl
      exact absurd hl List.not_mem_nil
    | true =>
      rw [hmodified] at hl
      exact ⟨hport.trans (congrArg some (replaceServersLists_name hl).symm), by simp [hvrf], rfl⟩

theorem udpBcastForwarderConfigChange_lists_name {rec : UdpBcastForwarderRow}
    {l : CString × Except Fault (List ServerKey)}
    (hl : l ∈ (HandlerCall.udpBcastForwarderConfigChange rec).lists c.state) :
    rec.srcPort = some l.1 ∧ rec.destVrf ≠ none := by
  by_cases hnone : rec.srcPort = none ∨ rec.destVrf = none
  · rw [udpBcastForwarderConfigChange_lists_skipped c.state hnone] at hl
    exact absurd hl List.not_mem_nil
  · obtain ⟨name, hport⟩ := Option.ne_none_iff_exists'.mp (not_or.mp hnone).1
    obtain ⟨vrf, hvrf⟩ := Option.ne_none_iff_exists'.mp (not_or.mp hnone).2
    obtain ⟨p, s₁, n, -, -, hlists⟩ := udpBcastForwarderConfigChange_lists_eq c hport hvrf
    rw [hlists] at hl
    exact ⟨hport.trans (congrArg some (replaceServersLists_name hl).symm), by simp [hvrf]⟩

theorem card_filter_lt_iff {held : Multiset ServerKey} {m : ℕ} (hle : held.card ≤ m)
    (P : ServerKey → Prop) [DecidablePred P] :
    (held.filter P).card < m ↔ ¬(held.card = m ∧ ∀ k ∈ held, P k) := by
  have hsub : held.filter P ≤ held := Multiset.filter_le P held
  have hcard := Multiset.card_le_card hsub
  constructor
  · intro hlt hall
    rw [Multiset.filter_eq_self.mpr hall.2] at hlt
    exact Nat.ne_of_lt hlt hall.1
  · intro hnot
    by_contra hge
    have hself := Multiset.eq_of_le_of_card_le hsub (by omega)
    exact hnot ⟨by omega, Multiset.filter_eq_self.mp hself⟩

/-- Servers are compared by address, so those of all ports are deleted. -/
theorem dhcpRelayConfigChange_lists_terminated_iff (hlimits : WithinLimits c.state portName)
    {rec : DhcpRelayRow} (modified : DhcpRelayModified) (hrow : rec.ipv4UcastServer.length ≤ 8) :
    (∀ servers, (portName, servers) ∈
        (HandlerCall.dhcpRelayConfigChange rec modified).lists c.state → Terminated servers) ↔
      ¬(HandlerCall.dhcpRelayConfigChange rec modified).ReplacesAll c.state portName := by
  by_cases hrec : rec.port = some portName ∧ rec.vrf ≠ none ∧ modified.ipv4UcastServer = true
  · obtain ⟨hport, hsome, hmodified⟩ := hrec
    obtain ⟨vrf, hvrf⟩ := Option.ne_none_iff_exists'.mp hsome
    -- all lists of the call belong to the port of the row
    have hall : (∀ servers, (portName, servers) ∈
        (HandlerCall.dhcpRelayConfigChange rec modified).lists c.state → Terminated servers) ↔
        ∀ l ∈ (HandlerCall.dhcpRelayConfigChange rec modified).lists c.state,
          Terminated l.2 := by
      constructor
      · intro h l hl
        have hname := (dhcpRelayConfigChange_lists_name hl).1
        rw [hport, Option.some.injEq] at hname
        exact h l.2 (hname ▸ hl)
      · exact fun h servers hl => h _ hl
    have hchanges := dhcpRelayConfigChange_changes c hport hvrf hmodified
    -- the new addresses are those of the row, too few to fill the array
    have hnew := Nat.lt_of_le_of_lt (Nat.le_trans (length_newServers_le
      (c.state.serversOf portName - (c.state.serversOf portName).filterMap
        (dhcpRelayStale rec.ipv4UcastServer)) rec.ipv4UcastServer
      (fun id server => server.1 = id) dhcpsPort) hrow)
      (show 8 < maxUdpBcastServerPerInterface by decide)
    have hdrop : ∀ k, (dhcpRelayStale rec.ipv4UcastServer k).isSome ↔
        k.1 ∉ validAddresses rec.ipv4UcastServer := by
      intro k
      rw [Option.isSome_iff_exists]
      simp only [dhcpRelayStale_eq_some_iff]
      exact ⟨fun hcase => hcase.choose_spec.1, fun hk => ⟨_, hk, rfl⟩⟩
    rw [hall, HandlerCall.lists_iff, HandlerCall.apply, hchanges.ne_scratchBounds_iff hnew,
      card_filterMap_eq hdrop, card_filter_lt_iff hlimits.card_le]
    exact not_congr ⟨fun hfull => ⟨hport, hsome, hmodified, hfull⟩, fun hcase => hcase.2.2.2⟩
  · refine iff_of_true ?_ ?_
    · intro servers hl
      exact absurd (dhcpRelayConfigChange_lists_name hl) hrec
    · intro hcase
      exact hrec ⟨hcase.1, hcase.2.1, hcase.2.2.1⟩

/-- Servers are compared by address and port. -/
theorem udpBcastForwarderConfigChange_lists_terminated (hlimits : WithinLimits c.state portName)
    {rec : UdpBcastForwarderRow} (hrow : rec.ipv4UcastServer.length ≤ 8)
    {servers : Except Fault (List ServerKey)}
    (hl : (portName, servers) ∈ (HandlerCall.udpBcastForwarderConfigChange rec).lists c.state) :
    Terminated servers := by
  obtain ⟨hport, hsome⟩ := udpBcastForwarderConfigChange_lists_name hl
  obtain ⟨vrf, hvrf⟩ := Option.ne_none_iff_exists'.mp hsome
  have hchanges := udpBcastForwarderConfigChange_changes c hport hvrf
  have hnew := Nat.lt_of_le_of_lt (Nat.le_trans (length_newServers_le
    (c.state.serversOf portName - (c.state.serversOf portName).filterMap
      (udpBcastForwarderStale rec.udpDport rec.ipv4UcastServer)) rec.ipv4UcastServer
    (fun id server => server.1 = id ∧ server.2.toNat = rec.udpDport)
    (UInt16.ofNat (rec.udpDport % 65536).toNat)) hrow)
    (show 8 < maxUdpBcastServerPerInterface by decide)
  have hdrop : ∀ k, (udpBcastForwarderStale rec.udpDport rec.ipv4UcastServer k).isSome ↔
      k.2.toNat = rec.udpDport ∧ k.1 ∉ validAddresses rec.ipv4UcastServer := by
    intro k
    rw [Option.isSome_iff_exists]
    simp only [udpBcastForwarderStale_eq_some_iff]
    exact ⟨fun hcase => ⟨hcase.choose_spec.1, hcase.choose_spec.2.1⟩,
      fun hk => ⟨k, hk.1, hk.2, rfl⟩⟩
  have hgone : ((c.state.serversOf portName).filterMap
      (udpBcastForwarderStale rec.udpDport rec.ipv4UcastServer)).card
        < maxUdpBcastServerPerInterface := by
    rw [card_filterMap_eq hdrop]
    refine Nat.lt_of_le_of_lt (Nat.le_trans (Multiset.card_le_card ?_)
      (hlimits.card_port_le rec.udpDport)) (by decide)
    exact Multiset.monotone_filter_right _ fun k hk => hk.1
  exact (HandlerCall.lists_iff c (.udpBcastForwarderConfigChange rec)).mpr
    ((hchanges.ne_scratchBounds_iff hnew).mpr hgone) _ hl

/-! ## Row deletion within the limits -/

/-- A list of at most eight servers of an interface. -/
theorem terminated_filter_of_card {s : State} (h : Linked s) {e : CString × NodePtr}
    (hlive : LiveEntry e (s.view e.2)) {P : ServerKey → Prop} [DecidablePred P]
    (hcard : ((s.serversOf e.1).filter P).card ≤ 8) :
    Terminated (.ok ((s.view e.2).2.filter P)) := by
  obtain ⟨⟨n, hp, hname⟩, -⟩ := hlive
  rw [← hname, card_filter_serversOf h hp] at hcard
  exact terminated_ok_iff.mpr (Nat.lt_of_le_of_lt hcard (by decide))

theorem dhcpRelayRowDelete_lists_terminated (hlimits : WithinLimits c.state portName)
    {rows : List DhcpRelayRow} {servers : Except Fault (List ServerKey)}
    (hl : (portName, servers) ∈ (HandlerCall.dhcpRelayRowDelete rows).lists c.state) :
    Terminated servers := by
  obtain ⟨e, he, hname, s', hinv', hview, hlist⟩ := walkLists_mem
    (dhcpRelayRowDeleteIntf_step rows) (dhcpRelayRowDeleteIntf_overrun rows) _
    c.inv.linked.table_pointers_nodup c.inv c.liveEntry _ hl
  obtain rfl : portName = e.1 := hname
  have hlive := c.liveEntry e he
  obtain ⟨hfound, horphan⟩ := dhcpRelayRowDeleteList_eq rows hinv' (by rw [hview]; exact hlive)
  by_cases hrow : DhcpRelayPrefixRow rows e.1
  · rw [hfound hrow] at hlist
    exact absurd hlist (by simp)
  · rw [horphan hrow, hview, Option.some.injEq] at hlist
    obtain rfl : _ = servers := hlist
    exact terminated_filter_of_card c.inv.linked hlive hlimits.helpers

theorem udpBcastForwarderRowDelete_lists_terminated (hlimits : WithinLimits c.state portName)
    {rows : List UdpBcastForwarderRow} {servers : Except Fault (List ServerKey)}
    (hl : (portName, servers) ∈ (HandlerCall.udpBcastForwarderRowDelete rows).lists c.state) :
    Terminated servers := by
  obtain ⟨e, he, hname, s', hinv', hview, hlist⟩ := walkLists_mem
    (udpBcastForwarderRowDeleteIntf_step rows) (udpBcastForwarderRowDeleteIntf_overrun rows) _
    c.inv.linked.table_pointers_nodup c.inv c.liveEntry _ hl
  obtain rfl : portName = e.1 := hname
  have hlive := c.liveEntry e he
  rw [udpBcastForwarderRowDeleteList_eq rows hinv' (by rw [hview]; exact hlive), hview,
    Option.some.injEq] at hlist
  obtain rfl : _ = servers := hlist
  apply terminated_filter_of_card c.inv.linked hlive
  refine Nat.le_trans (Multiset.card_le_card ?_) hlimits.others
  exact Multiset.monotone_filter_right _ fun k hk => hk.1

/-- Every list about an interface within the limits ends in its array, unless a `DHCP_Relay` row
replaces sixteen servers of both kinds at once. -/
theorem scratchLists_terminated_iff (c : Cache) (call : HandlerCall) {portName : CString}
    (hlimits : WithinLimits c.state portName) (hrow : call.RowLimit) :
    (∀ servers, (portName, servers) ∈ call.lists c.state → Terminated servers) ↔
      ¬call.ReplacesAll c.state portName := by
  cases call with
  | dhcpRelayConfigChange rec modified =>
    exact dhcpRelayConfigChange_lists_terminated_iff hlimits modified hrow
  | udpBcastForwarderConfigChange rec =>
    refine iff_of_true ?_ id
    exact fun servers hl => udpBcastForwarderConfigChange_lists_terminated hlimits hrow hl
  | dhcpRelayRowDelete rows =>
    exact iff_of_true (fun servers hl => dhcpRelayRowDelete_lists_terminated hlimits hl) id
  | udpBcastForwarderRowDelete rows =>
    exact iff_of_true (fun servers hl => udpBcastForwarderRowDelete_lists_terminated hlimits hl) id

theorem crowdedCache_withinLimits : WithinLimits crowdedCache.state ['1'] := by
  refine ⟨?_, ?_⟩
  · rw [crowdedCache_serversOf]
    decide
  · rw [crowdedCache_serversOf]
    decide

/-- An interface with eight helpers and eight other servers is given one new helper: sixteen
servers are to be deleted, and the array has no zero. -/
theorem scratchLists_overrun : WithinLimits crowdedCache.state ['1'] ∧
    ∃ servers, servers.length = 16 ∧ (['1'], .ok servers) ∈ (HandlerCall.dhcpRelayConfigChange
        ⟨some ['1'], some ['v'], none, ["10.0.0.9".toList]⟩ ⟨false, true⟩).lists
          crowdedCache.state ∧
      (HandlerCall.dhcpRelayConfigChange
        ⟨some ['1'], some ['v'], none, ["10.0.0.9".toList]⟩ ⟨false, true⟩).apply
          crowdedCache.state = .error .scratchBounds := by
  have hlists : (HandlerCall.dhcpRelayConfigChange
      ⟨some ['1'], some ['v'], none, ["10.0.0.9".toList]⟩ ⟨false, true⟩).lists crowdedCache.state
      = [(['1'], .ok (crowdedServers 67 ++ crowdedServers 67)),
        (['1'], .error .scratchBounds)] := rfl
  refine ⟨crowdedCache_withinLimits, crowdedServers 67 ++ crowdedServers 67, rfl, ?_, rfl⟩
  rw [hlists]
  exact List.mem_cons_self

/-- One of the eight addresses stays in the row, and the servers that have it do not count. -/
theorem scratchLists_terminated_iff_kept : WithinLimits crowdedCache.state ['1'] ∧
    ∀ servers, (['1'], servers) ∈ (HandlerCall.dhcpRelayConfigChange
        ⟨some ['1'], some ['v'], none, ["10.0.0.1".toList]⟩ ⟨false, true⟩).lists
          crowdedCache.state → Terminated servers := by
  have hkept : (0x0100000a, 67) ∈ crowdedCache.state.serversOf ['1'] := by
    rw [crowdedCache_serversOf]
    decide
  have hrow : (HandlerCall.dhcpRelayConfigChange
      ⟨some ['1'], some ['v'], none, ["10.0.0.1".toList]⟩ ⟨false, true⟩).RowLimit := by
    show 1 ≤ 8
    decide
  refine ⟨crowdedCache_withinLimits, ?_⟩
  refine (scratchLists_terminated_iff crowdedCache _ crowdedCache_withinLimits hrow).mpr ?_
  intro hcase
  exact hcase.2.2.2.2 _ hkept (by decide)

end limits

end Udpfwd
end IpApps
