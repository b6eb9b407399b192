import IpApps.Udpfwd.CacheSpecs
import IpApps.Udpfwd.RelayRequest

/-!
# The loops over the server array

Both relay functions walk the server array of an interface and send the packet to the
servers on one port. Only the counters of the interface's node change on the way, so the
array that is walked stays what it was, and the loop is a fold over the servers.
-/

namespace IpApps
namespace Udpfwd

open Memory Endian ExceptLoops

/-! ## Counting -/

namespace State

variable {s : State} {p p' : NodePtr} {n : UdpfwdInterfaceNode}

/-- The counters of a node. -/
def counters (s : State) (p : NodePtr) : DhcpRelayPktCounter :=
  match s.nodes p with
  | some n => n.dhcpRelayPktCounters
  | none => {}

/-- The state after the counters of the node `p` were changed. -/
def counted (s : State) (p : NodePtr) (f : DhcpRelayPktCounter → DhcpRelayPktCounter) : State :=
  match s.nodes p with
  | some n => s.setNode p { n with dhcpRelayPktCounters := f n.dhcpRelayPktCounters }
  | none => s

theorem count_eq (f : DhcpRelayPktCounter → DhcpRelayPktCounter) (hp : s.nodes p = some n) :
    s.count p f = .ok (s.counted p f) := by
  unfold count counted
  rw [s.node_eq_ok hp, ok_bind]
  simp only [hp]
  rfl

theorem nodes_counted (f : DhcpRelayPktCounter → DhcpRelayPktCounter) (hp : s.nodes p = some n) :
    (s.counted p f).nodes p = some { n with dhcpRelayPktCounters := f n.dhcpRelayPktCounters } := by
  unfold counted
  simp only [hp]
  exact nodes_setNode_self

theorem counters_counted (f : DhcpRelayPktCounter → DhcpRelayPktCounter)
    (hp : s.nodes p = some n) : (s.counted p f).counters p = f (s.counters p) := by
  unfold counters
  simp only [nodes_counted f hp, hp]

theorem table_counted (f : DhcpRelayPktCounter → DhcpRelayPktCounter) :
    (s.counted p f).intfHashTable = s.intfHashTable := by
  unfold counted
  cases s.nodes p with
  | none => rfl
  | some n => rfl

theorem refsAt_counted (f : DhcpRelayPktCounter → DhcpRelayPktCounter) :
    (s.counted p f).refsAt p' = s.refsAt p' := by
  unfold counted
  cases hp : s.nodes p with
  | none => rfl
  | some n =>
    by_cases hpp : p' = p
    · rw [hpp, refsAt_setNode_self, refsAt_eq hp]
      rfl
    · exact refsAt_setNode_of_ne hpp

theorem keysAt_counted (f : DhcpRelayPktCounter → DhcpRelayPktCounter) :
    (s.counted p f).keysAt p' = s.keysAt p' := by
  apply keysAt_congr (refsAt_counted f)
  intro q _
  unfold counted
  cases s.nodes p with
  | none => rfl
  | some n => rfl

theorem linked_counted (h : Linked s) (f : DhcpRelayPktCounter → DhcpRelayPktCounter) :
    Linked (s.counted p f) := by
  unfold counted
  cases hp : s.nodes p with
  | none => exact h
  | some n =>
    have hholds := h.holds p n hp
    have hlive : ∀ q ∈ n.refs, ∃ r, s.servers q = some r := by
      intro q hq
      exact h.live p q (by rwa [refsAt_eq hp])
    exact h.setNode hp rfl ⟨hholds.count, hholds.bound, hholds.array⟩ hlive

theorem nodes_counted_of_ne (f : DhcpRelayPktCounter → DhcpRelayPktCounter) (hne : p' ≠ p) :
    (s.counted p f).nodes p' = s.nodes p' := by
  unfold counted
  cases s.nodes p with
  | none => rfl
  | some n => exact nodes_setNode_of_ne hne

end State

/-- The linked cache `s'` is `s` but for the counters of its node `p`. -/
structure Recounted (s s' : State) (p : NodePtr) : Prop where
  linked : Linked s'
  table : s'.intfHashTable = s.intfHashTable
  keys : ∀ p', s'.keysAt p' = s.keysAt p'
  others : ∀ p', p' ≠ p → s'.nodes p' = s.nodes p'
  node : ∃ n c, s.nodes p = some n ∧ s'.nodes p = some { n with dhcpRelayPktCounters := c }

namespace Recounted

variable {s s' : State} {p : NodePtr} {n : UdpfwdInterfaceNode}

theorem refl (h : Linked s) (hp : s.nodes p = some n) : Recounted s s p :=
  ⟨h, rfl, fun _ => rfl, fun _ _ => rfl, n, n.dhcpRelayPktCounters, hp, hp⟩

theorem counted (h : Recounted s s' p) (f : DhcpRelayPktCounter → DhcpRelayPktCounter) :
    Recounted s (s'.counted p f) p := by
  obtain ⟨n, c, hp, hp'⟩ := h.node
  refine ⟨State.linked_counted h.linked f, (State.table_counted f).trans h.table,
    fun p' => (State.keysAt_counted f).trans (h.keys p'),
    fun p' hne => (State.nodes_counted_of_ne f hne).trans (h.others p' hne), n, f c, hp, ?_⟩
  rw [State.nodes_counted f hp']

end Recounted

namespace Relay

variable {host : Host} {size : ℕ} {interfaceIp : IpAddress} {p : NodePtr} {r : Relay}

/-! ## The loop of `udpfwd_forward_packet` -/

/-- What a round does for the server `k`. -/
def forwardToKey (host : Host) (udpDport : UInt16) (size : ℕ) (interfaceIp : IpAddress)
    (r : Relay) (k : ServerKey) : Relay :=
  if k.2 ≠ udpDport then r
  else
    let pktInfo :=
      if r.pktInfo.ipiAddr = 0 then { r.pktInfo with ipiSpecDst := interfaceIp } else r.pktInfo
    (sendPktThroughSocket host { r with pktInfo := { pktInfo with ipiIfindex := 0 } } size k.1
      udpDport).2

/-- The loop walks the servers of the interface. -/
theorem forwardLoop_eq {n : UdpfwdInterfaceNode} (udpDport : UInt16) (hl : Linked r.state)
    (hp : r.state.nodes p = some n) :
    (List.range n.addrCount).foldlM (forwardToServer host udpDport size interfaceIp p) r =
      .ok ((r.state.keysAt p).foldl (forwardToKey host udpDport size interfaceIp) r) := by
  have hloop := @foldlM_range_fold _ _ _ (r.state.keysAt p)
    (forwardToServer host udpDport size interfaceIp p)
    (forwardToKey host udpDport size interfaceIp) (fun r' => r'.state = r.state) ?_ ?_ r rfl
  · rw [hl.addrCount_eq hp]
    exact hloop.1
  · intro r' i hi hstate
    have hi' : i < (r.state.serversAt p).length := by
      rwa [State.keysAt, List.length_map] at hi
    have hkey : (r.state.keysAt p)[i] = (r.state.serversAt p)[i].key := List.getElem_map ..
    unfold forwardToServer forwardToKey
    rw [hstate, r.state.node_eq_ok hp, ok_bind, hl.slotServer_eq hp i hi', ok_bind, hkey]
    generalize (r.state.serversAt p)[i] = server
    show (if server.udpPort ≠ udpDport then _ else _) =
      Except.ok (if server.udpPort ≠ udpDport then _ else _)
    by_cases hport : server.udpPort ≠ udpDport
    · rw [if_pos hport, if_pos hport]
      rfl
    · rw [if_neg hport, if_neg hport]
      rfl
  · intro r' k hstate
    unfold forwardToKey
    split
    · exact hstate
    · exact hstate

/-- The interface that forwards a datagram, and its node. -/
def forwardNode (host : Host) (r : Relay) : Option (CString × NodePtr) :=
  if r.pktInfo.ipiIfindex = Host.noIfIndex then none
  else
    match host.ifIndextoname r.pktInfo.ipiIfindex with
    | none => none
    | some ifName =>
      if host.getLowestIpOnInterface ifName = 0 then none
      else (r.state.shashFind ifName).map fun p => (ifName, p)

theorem forwardNode_eq_some {found : CString × NodePtr} (h : forwardNode host r = some found) :
    r.state.shashFind found.1 = some found.2 := by
  unfold forwardNode at h
  split at h
  · exact absurd h (by simp)
  · split at h
    · exact absurd h (by simp)
    · split at h
      · exact absurd h (by simp)
      · rw [Option.map_eq_some_iff] at h
        obtain ⟨p, hfind, rfl⟩ := h
        exact hfind

/-- What becomes of a datagram for the forwarder. -/
def forwarded (host : Host) (udpDport : UInt16) (size : ℕ) (r : Relay) : Relay :=
  match forwardNode host r with
  | none => r
  | some (ifName, p) =>
    (r.state.keysAt p).foldl
      (forwardToKey host udpDport size (host.getLowestIpOnInterface ifName)) r

theorem forwardPacket_eq (udpDport : UInt16) (hl : Linked r.state) :
    forwardPacket host udpDport size r = .ok (forwarded host udpDport size r) := by
  unfold forwardPacket forwarded forwardNode
  by_cases hindex : r.pktInfo.ipiIfindex = Host.noIfIndex
  · simp only [hindex, if_true]
  · simp only [hindex, if_false]
    cases hname : host.ifIndextoname r.pktInfo.ipiIfindex with
    | none => rfl
    | some ifName =>
      dsimp only
      by_cases hip : host.getLowestIpOnInterface ifName = 0
      · rw [if_pos hip, if_pos hip]
      · rw [if_neg hip, if_neg hip]
        cases hfind : r.state.shashFind ifName with
        | none => rfl
        | some p =>
          obtain ⟨n, hp, -⟩ := (hl.shashFind_eq_some_iff _ p).mp hfind
          dsimp only
          rw [r.state.node_eq_ok hp, ok_bind]
          exact forwardLoop_eq udpDport hl hp

/-! ## The loop of `udpfwd_relay_to_dhcp_server` -/

/-- The source address a datagram is sent with. -/
def sourced (interfaceIp : IpAddress) (pkt : Packet) : Packet :=
  if ipAt pkt ipSrcOff = 0 then store pkt ipSrcOff (ipBytes interfaceIp) else pkt

/-- The counters after a `sendmsg` to a server. -/
def countSent (sent : Bool) (c : DhcpRelayPktCounter) : DhcpRelayPktCounter :=
  if sent then { c with clientValids := c.clientValids + 1 }
  else { c with clientDrops := c.clientDrops + 1 }

/-- What a round does for the server `k`. -/
def relayToKey (host : Host) (size : ℕ) (interfaceIp : IpAddress) (p : NodePtr) (r : Relay)
    (k : ServerKey) : Relay :=
  if k.2 ≠ dhcpsPort then r
  else
    let pkt := addressed (sourced interfaceIp r.pkt) k.1 dhcpsPort
    let pktInfo := { r.pktInfo with ipiIfindex := 0 }
    { r with
      pkt, pktInfo
      sent := r.sent ++ [⟨slice pkt 0 size, k.1, dhcpsPort, pktInfo⟩]
      state := r.state.counted p (countSent (host.sendmsg r.sent.length)) }

theorem relayToKey_recounted {s : State} (h : Recounted s r.state p) (k : ServerKey) :
    Recounted s (relayToKey host size interfaceIp p r k).state p := by
  unfold relayToKey
  split
  · exact h
  · exact h.counted _

theorem relayToServer_eq {s : State} (h : Recounted s r.state p) {i : ℕ}
    (hi : i < (s.keysAt p).length) :
    relayToServer host size interfaceIp p r i =
      .ok (relayToKey host size interfaceIp p r (s.keysAt p)[i]) := by
  obtain ⟨n, c, -, hp⟩ := h.node
  have hi' : i < (r.state.serversAt p).length := by
    rwa [← h.keys, State.keysAt, List.length_map] at hi
  -- the counters have changed since the loop began, the slots have not
  have hkey : (s.keysAt p)[i] = (r.state.serversAt p)[i].key := by
    simp only [← h.keys p]
    exact List.getElem_map ..
  unfold relayToServer relayToKey
  rw [r.state.node_eq_ok hp, ok_bind, h.linked.slotServer_eq hp i hi', ok_bind, hkey]
  generalize (r.state.serversAt p)[i] = server
  show (if server.udpPort ≠ dhcpsPort then _ else _) =
    Except.ok (if server.udpPort ≠ dhcpsPort then _ else _)
  by_cases hport : server.udpPort ≠ dhcpsPort
  · rw [if_pos hport, if_pos hport]
    rfl
  · rw [if_neg hport, if_neg hport]
    simp only [sendPktThroughSocket]
    rw [State.count_eq _ hp]
    rfl

/-- After option 82 the request goes to the servers of the interface in array order. -/
theorem relayToServers_eq {n : UdpfwdInterfaceNode} (hl : Linked r.state)
    (hp : r.state.nodes p = some n) (ifName : CString) (dhcp : ℤ) :
    let pkt := stampGiaddr host ifName n.bootpGw interfaceIp dhcp r.pkt
    relayToServers host ifName interfaceIp p dhcp r =
      .ok ((r.state.keysAt p).foldl
        (relayToKey host (ntohs pkt ipLenOff) interfaceIp p) { r with pkt }) := by
  intro pkt
  unfold relayToServers
  rw [r.state.node_eq_ok hp, ok_bind, hl.addrCount_eq hp]
  show (List.range _).foldlM (relayToServer host (ntohs pkt ipLenOff) interfaceIp p)
    { r with pkt } = _
  -- the message is stamped once, in front of the loop
  clear_value pkt
  have hstart : Recounted r.state { r with pkt }.state p := by
    dsimp only
    exact .refl hl hp
  have hloop := @foldlM_range_fold _ _ _ (r.state.keysAt p)
    (relayToServer host (ntohs pkt ipLenOff) interfaceIp p)
    (relayToKey host (ntohs pkt ipLenOff) interfaceIp p)
    (fun r' => Recounted r.state r'.state p) (fun _ _ hi h => relayToServer_eq h hi)
    (fun _ k h => relayToKey_recounted h k) { r with pkt } hstart
  exact hloop.1

/-- The loop leaves the cache as it was but for the counters of the node. -/
theorem relayLoop_recounted {s : State} (h : Recounted s r.state p) (ks : List ServerKey) :
    Recounted s (ks.foldl (relayToKey host size interfaceIp p) r).state p := by
  induction ks generalizing r with
  | nil => exact h
  | cons k ks ih =>
    rw [List.foldl_cons]
    exact ih (relayToKey_recounted h k)

/-! ## A request from start to end -/

/-- The interface that relays a request, and its node. -/
def requestNode (host : Host) (r : Relay) : Option (CString × NodePtr) :=
  if r.pktInfo.ipiIfindex = Host.noIfIndex then none
  else
    match host.ifIndextoname r.pktInfo.ipiIfindex with
    | none => none
    | some ifName =>
      if host.getLowestIpOnInterface ifName = 0 then none
      else if udpfwdDhcpMaxHops < r.pkt (dhcp r.pkt + hopsOff) then none
      else (r.state.shashFind ifName).map fun p => (ifName, p)

/-- A request that no interface relays: nothing is sent or counted. -/
theorem relayToDhcpServer_none {cfg : FeatureConfig} (h : requestNode host r = none) :
    ∃ pkt, relayToDhcpServer cfg host r = .ok { r with pkt } := by
  unfold requestNode at h
  unfold relayToDhcpServer
  by_cases hindex : r.pktInfo.ipiIfindex = Host.noIfIndex
  · exact ⟨r.pkt, by simp only [hindex, if_true]⟩
  · simp only [hindex, if_false] at h ⊢
    cases hname : host.ifIndextoname r.pktInfo.ipiIfindex with
    | none => exact ⟨r.pkt, rfl⟩
    | some ifName =>
      simp only [hname] at h ⊢
      by_cases hip : host.getLowestIpOnInterface ifName = 0
      · exact ⟨r.pkt, if_pos hip⟩
      · rw [if_neg hip] at h ⊢
        by_cases hhops : udpfwdDhcpMaxHops < r.pkt (dhcp r.pkt + hopsOff)
        · exact ⟨r.pkt, if_pos hhops⟩
        · rw [if_neg hhops, Option.map_eq_none_iff] at h
          rw [if_neg hhops, h]
          exact ⟨_, rfl⟩

theorem requestNode_eq_some {ifName : CString} (h : requestNode host r = some (ifName, p)) :
    r.pktInfo.ipiIfindex ≠ Host.noIfIndex ∧
      host.ifIndextoname r.pktInfo.ipiIfindex = some ifName ∧
      host.getLowestIpOnInterface ifName ≠ 0 ∧
      ¬udpfwdDhcpMaxHops < r.pkt (dhcp r.pkt + hopsOff) ∧
      r.state.shashFind ifName = some p := by
  unfold requestNode at h
  by_cases hindex : r.pktInfo.ipiIfindex = Host.noIfIndex
  · rw [if_pos hindex] at h
    exact absurd h (by simp)
  · rw [if_neg hindex] at h
    cases hname : host.ifIndextoname r.pktInfo.ipiIfindex with
    | none => simp [hname] at h
    | some name =>
      simp only [hname] at h
      by_cases hip : host.getLowestIpOnInterface name = 0
      · rw [if_pos hip] at h
        exact absurd h (by simp)
      · rw [if_neg hip] at h
        by_cases hhops : udpfwdDhcpMaxHops < r.pkt (dhcp r.pkt + hopsOff)
        · rw [if_pos hhops] at h
          exact absurd h (by simp)
        · rw [if_neg hhops, Option.map_eq_some_iff] at h
          obtain ⟨p', hfind, heq⟩ := h
          obtain ⟨rfl, rfl⟩ := Prod.mk.injEq .. ▸ heq
          exact ⟨hindex, rfl, hip, hhops, hfind⟩

/-- A request that an interface relays. -/
theorem relayToDhcpServer_some {cfg : FeatureConfig} {ifName : CString}
    (h : requestNode host r = some (ifName, p)) :
    relayToDhcpServer cfg host r =
      relayRequest cfg host r.pktInfo.ipiIfindex ifName (host.getLowestIpOnInterface ifName) p
        { r with pkt := correctPort r.pkt } := by
  obtain ⟨hindex, hname, hip, hhops, hfind⟩ := requestNode_eq_some h
  unfold relayToDhcpServer
  simp only [hindex, if_false, hname, hip, hhops, hfind]

/-- What option 82 processing makes of a request that the node `n` relays. -/
def requestOutcome (cfg : FeatureConfig) (host : Host) (ifName : CString)
    (n : UdpfwdInterfaceNode) (r : Relay) : Option82Outcome :=
  processDhcpRelayOption82Message cfg host (countHop cfg (correctPort r.pkt))
    ⟨0, host.getLowestIpOnInterface ifName⟩ r.pktInfo.ipiIfindex ifName n.bootpGw

/-- The request `r`, whose message is at `dhcp`, sent to the servers `ks`. -/
def relayedTo (host : Host) (ifName : CString) (bootpGw : IpAddress) (p : NodePtr) (dhcp : ℤ)
    (ks : List ServerKey) (r : Relay) : Relay :=
  let interfaceIp := host.getLowestIpOnInterface ifName
  let pkt := stampGiaddr host ifName bootpGw interfaceIp dhcp r.pkt
  ks.foldl (relayToKey host (ntohs pkt ipLenOff) interfaceIp p) { r with pkt }

/-- The counters after a request that option 82 processing dropped. -/
def clientDroppedWithOption82 (c : DhcpRelayPktCounter) : DhcpRelayPktCounter :=
  { c with clientDropsWithOption82 := c.clientDropsWithOption82 + 1 }

/-- The counters after a request that option 82 processing found valid. -/
def clientValidWithOption82 (c : DhcpRelayPktCounter) : DhcpRelayPktCounter :=
  { c with clientValidsWithOption82 := c.clientValidsWithOption82 + 1 }

/-- What becomes of a request at its node. -/
def requestRelayed (cfg : FeatureConfig) (host : Host) (ifName : CString) (p : NodePtr)
    (n : UdpfwdInterfaceNode) (r : Relay) : Relay :=
  let outcome := requestOutcome cfg host ifName n r
  let relayed := relayedTo host ifName n.bootpGw p (dhcp r.pkt) (r.state.keysAt p)
  match outcome.result with
  | .dropped =>
    { r with pkt := outcome.pkt, state := r.state.counted p clientDroppedWithOption82 }
  | .valid =>
    relayed { r with pkt := outcome.pkt, state := r.state.counted p clientValidWithOption82 }
  | .noop => relayed { r with pkt := outcome.pkt }

theorem relayRequest_eq (cfg : FeatureConfig) (ifName : CString) {n : UdpfwdInterfaceNode}
    (hl : Linked r.state) (hp : r.state.nodes p = some n) :
    relayRequest cfg host r.pktInfo.ipiIfindex ifName (host.getLowestIpOnInterface ifName) p
      { r with pkt := correctPort r.pkt } = .ok (requestRelayed cfg host ifName p n r) := by
  -- the source port is corrected in place, which leaves the header lengths
  have hdhcp : dhcp (correctPort r.pkt) = dhcp r.pkt := dhcp_congr correctPort_first
  unfold relayRequest requestRelayed requestOutcome
  simp only [hdhcp]
  rw [r.state.node_eq_ok hp, ok_bind]
  generalize processDhcpRelayOption82Message cfg host (countHop cfg (correctPort r.pkt))
    ⟨0, host.getLowestIpOnInterface ifName⟩ r.pktInfo.ipiIfindex ifName n.bootpGw = outcome
  cases hresult : outcome.result with
  | dropped =>
    simp only
    rw [State.count_eq _ hp]
    rfl
  | valid =>
    simp only
    rw [State.count_eq _ hp, ok_bind]
    have hloop := @relayToServers_eq host (host.getLowestIpOnInterface ifName) p
      { r with pkt := outcome.pkt, state := r.state.counted p clientValidWithOption82 } _
      (State.linked_counted hl _) (State.nodes_counted _ hp) ifName (dhcp r.pkt)
    simp only [State.keysAt_counted] at hloop
    exact hloop
  | noop =>
    exact relayToServers_eq (r := { r with pkt := outcome.pkt }) hl hp ifName (dhcp r.pkt)

/-- A request that was relayed has changed the counters of its node only. -/
theorem requestRelayed_recounted (cfg : FeatureConfig) (ifName : CString)
    {n : UdpfwdInterfaceNode} (hl : Linked r.state) (hp : r.state.nodes p = some n) :
    Recounted r.state (requestRelayed cfg host ifName p n r).state p := by
  have hstart : Recounted r.state r.state p := .refl hl hp
  unfold requestRelayed relayedTo
  dsimp only
  split
  · exact hstart.counted _
  · apply relayLoop_recounted
    dsimp only
    exact hstart.counted _
  · apply relayLoop_recounted
    dsimp only
    exact hstart

/-! ## Where the datagrams go -/

/-- The destinations of the `sendmsg` calls so far. -/
def destinations (r : Relay) : List ServerKey := r.sent.map fun d => (d.sinAddr, d.sinPort)

section rounds

variable {round : Relay → ServerKey → Relay} {udpPort : UInt16}

/-- A loop whose rounds send one datagram each, but for servers on other ports. What a round
needs of the packet it leaves for the next. -/
theorem sent_foldl {P : Packet → Prop} {Q : ServerKey → Datagram → Prop}
    (hskip : ∀ r k, k.2 ≠ udpPort → round r k = r)
    (hsend : ∀ r k, k.2 = udpPort → P r.pkt →
      P (round r k).pkt ∧ ∃ d, (round r k).sent = r.sent ++ [d] ∧ Q k d)
    (ks : List ServerKey) (h : P r.pkt) :
    ∃ ds, (ks.foldl round r).sent = r.sent ++ ds ∧
      List.Forall₂ Q (ks.filter (·.2 = udpPort)) ds := by
  induction ks generalizing r with
  | nil => exact ⟨[], by simp, .nil⟩
  | cons k ks ih =>
    rw [List.foldl_cons]
    -- a server on the port adds its datagram, any other leaves the list as it is
    by_cases hport : k.2 = udpPort
    · obtain ⟨hkept, d, hd, hQ⟩ := hsend r k hport h
      obtain ⟨ds, hsent, hds⟩ := ih hkept
      rw [List.filter_cons_of_pos (by simpa using hport)]
      refine ⟨d :: ds, ?_, .cons hQ hds⟩
      rw [hsent, hd, List.append_assoc]
      rfl
    · rw [hskip r k hport, List.filter_cons_of_neg (by simpa using hport)]
      exact ih h

theorem destinations_foldl (hskip : ∀ r k, k.2 ≠ udpPort → round r k = r)
    (hsend : ∀ r k, k.2 = udpPort →
      ∃ d, (round r k).sent = r.sent ++ [d] ∧ (d.sinAddr, d.sinPort) = k)
    (ks : List ServerKey) :
    (ks.foldl round r).destinations = r.destinations ++ ks.filter (·.2 = udpPort) := by
  obtain ⟨ds, hsent, hds⟩ := @sent_foldl r round udpPort (fun _ => True)
    (fun k d => k = (d.sinAddr, d.sinPort)) hskip
    (fun r k hport _ => ⟨trivial, (hsend r k hport).imp fun d hd => ⟨hd.1, hd.2.symm⟩⟩) ks trivial
  have hkeys : ks.filter (·.2 = udpPort) = ds.map fun d => (d.sinAddr, d.sinPort) := by
    rw [← List.forall₂_eq_eq_eq, List.forall₂_map_right_iff]
    exact hds
  rw [hkeys, destinations, hsent, List.map_append]
  rfl

end rounds

theorem destinations_forwardLoop (udpDport : UInt16) (ks : List ServerKey) :
    (ks.foldl (forwardToKey host udpDport size interfaceIp) r).destinations
      = r.destinations ++ ks.filter (·.2 = udpDport) := by
  apply destinations_foldl
  · exact fun r k hport => if_pos hport
  · intro r k hport
    unfold forwardToKey
    rw [if_neg (not_not_intro hport)]
    exact ⟨_, rfl, Prod.ext rfl hport.symm⟩

theorem destinations_relayLoop (ks : List ServerKey) :
    (ks.foldl (relayToKey host size interfaceIp p) r).destinations
      = r.destinations ++ ks.filter (·.2 = dhcpsPort) := by
  apply destinations_foldl
  · exact fun r k hport => if_pos hport
  · intro r k hport
    unfold relayToKey
    rw [if_neg (not_not_intro hport)]
    exact ⟨_, rfl, Prod.ext rfl hport.symm⟩

end Relay
end Udpfwd
end IpApps
