import IpApps.Udpfwd.OptionSearch
import IpApps.Udpfwd.RequestExact

/-!
# The packet counters of an interface

Over the life of an interface node its counters add up to what was relayed and dropped. A
request is always processed to its end, a reply that returns is counted once. A reply need not
return: the search for the message type may go round forever, and a long hardware address is copied
over the end of the ARP request.
-/

namespace IpApps
namespace Udpfwd

open Memory ExceptLoops

/-! ## Requests -/

/-- The counters after `k` further `sendmsg` calls, each counted as valid or dropped. -/
structure CountsSent (k : ℕ) (c c' : DhcpRelayPktCounter) : Prop where
  sent : c'.clientValids + c'.clientDrops = c.clientValids + c.clientDrops + UInt32.ofNat k
  others : c' = { c with clientValids := c'.clientValids, clientDrops := c'.clientDrops }

/-- The number of helpers among the servers of an interface. -/
def helperCount (ks : List ServerKey) : ℕ := (ks.filter (·.2 = dhcpsPort)).length

theorem countSent_countsSent (sent : Bool) (c : DhcpRelayPktCounter) :
    CountsSent 1 c (Relay.countSent sent c) := by
  cases sent with
  | true =>
    refine ⟨?_, rfl⟩
    show c.clientValids + 1 + c.clientDrops = c.clientValids + c.clientDrops + 1
    grind
  | false =>
    refine ⟨?_, rfl⟩
    show c.clientValids + (c.clientDrops + 1) = c.clientValids + c.clientDrops + 1
    grind

theorem CountsSent.trans {j k : ℕ} {c c' c'' : DhcpRelayPktCounter} (h : CountsSent j c c')
    (h' : CountsSent k c' c'') : CountsSent (j + k) c c'' := by
  refine ⟨?_, ?_⟩
  · rw [h'.sent, h.sent, UInt32.ofNat_add]
    grind
  · rw [h'.others, h.others]

section requests

variable {host : Host} {p : NodePtr} {r : Relay}

theorem counters_relayLoop {size : ℕ} {interfaceIp : IpAddress} {s : State}
    (h : Recounted s r.state p) (ks : List ServerKey) :
    CountsSent (helperCount ks) (r.state.counters p)
      ((ks.foldl (Relay.relayToKey host size interfaceIp p) r).state.counters p) := by
  induction ks generalizing r with
  | nil => exact ⟨by simp [helperCount], rfl⟩
  | cons k ks ih =>
    rw [List.foldl_cons]
    by_cases hport : k.2 = dhcpsPort
    · obtain ⟨n, c, -, hp⟩ := h.node
      have hround : (Relay.relayToKey host size interfaceIp p r k).state
          = r.state.counted p (Relay.countSent (host.sendmsg r.sent.length)) := by
        unfold Relay.relayToKey
        rw [if_neg (not_not_intro hport)]
      have hrest := @ih (Relay.relayToKey host size interfaceIp p r k)
        (Relay.relayToKey_recounted h k)
      rw [hround, State.counters_counted _ hp] at hrest
      have hcount : helperCount (k :: ks) = 1 + helperCount ks := by
        unfold helperCount
        rw [List.filter_cons_of_pos (by simpa using hport), List.length_cons, Nat.add_comm]
      rw [hcount]
      exact (countSent_countsSent _ _).trans hrest
    · have hround : Relay.relayToKey host size interfaceIp p r k = r := if_pos hport
      have hcount : helperCount (k :: ks) = helperCount ks := by
        unfold helperCount
        rw [List.filter_cons_of_neg (by simpa using hport)]
      rw [hround, hcount]
      exact ih h

theorem counters_relayedTo {ifName : CString} {bootpGw : IpAddress} {dhcp : ℤ} {s : State}
    (h : Recounted s r.state p) (ks : List ServerKey) :
    CountsSent (helperCount ks) (r.state.counters p)
      ((Relay.relayedTo host ifName bootpGw p dhcp ks r).state.counters p) := by
  unfold Relay.relayedTo
  dsimp only
  generalize Relay.stampGiaddr host ifName bootpGw _ dhcp r.pkt = pkt
  have hstart : Recounted s { r with pkt }.state p := h
  exact counters_relayLoop hstart ks

/-- What option 82 processing makes of a request, if the node `p` is to relay it. -/
def requestResult (cfg : FeatureConfig) (host : Host) (r : Relay) (p : NodePtr) :
    Option Option82Result :=
  match Relay.requestNode host r with
  | none => none
  | some (ifName, q) =>
    if q = p then
      (r.state.nodes p).map fun n => (Relay.requestOutcome cfg host ifName n r).result
    else none

/-- The counters of a node with `k` helpers after a request. -/
def RequestCounts (k : ℕ) (c c' : DhcpRelayPktCounter) : Option Option82Result → Prop
  | none => c' = c
  | some .dropped => c' = Relay.clientDroppedWithOption82 c
  | some .valid => CountsSent k (Relay.clientValidWithOption82 c) c'
  | some .noop => CountsSent k c c'

theorem counters_requestRelayed (cfg : FeatureConfig) (ifName : CString)
    {n : UdpfwdInterfaceNode} (hl : Linked r.state) (hp : r.state.nodes p = some n) :
    RequestCounts (helperCount (r.state.keysAt p)) (r.state.counters p)
      ((Relay.requestRelayed cfg host ifName p n r).state.counters p)
      (some (Relay.requestOutcome cfg host ifName n r).result) := by
  have hstart : Recounted r.state r.state p := .refl hl hp
  unfold Relay.requestRelayed
  generalize Relay.requestOutcome cfg host ifName n r = outcome
  dsimp only
  cases hresult : outcome.result with
  | dropped => exact State.counters_counted _ hp
  | valid =>
    unfold RequestCounts
    rw [← State.counters_counted Relay.clientValidWithOption82 hp]
    have hvalid : Recounted r.state { r with
        pkt := outcome.pkt
        state := r.state.counted p Relay.clientValidWithOption82 }.state p :=
      hstart.counted Relay.clientValidWithOption82
    exact counters_relayedTo hvalid _
  | noop =>
    have hnoop : Recounted r.state { r with pkt := outcome.pkt }.state p := hstart
    exact counters_relayedTo hnoop _

/-- The linked cache of a step: the node `p` lives on under its name. -/
structure LivesOn (s s' : State) (p : NodePtr) : Prop where
  linked : Linked s'
  node : ∀ n, s.nodes p = some n → ∃ n', s'.nodes p = some n'

theorem Recounted.livesOn {s s' : State} {q : NodePtr} (h : Recounted s s' q) :
    LivesOn s s' p := by
  refine ⟨h.linked, fun n hp => ?_⟩
  by_cases hpq : p = q
  · obtain ⟨m, c, -, hq'⟩ := h.node
    exact ⟨_, by rw [hpq]; exact hq'⟩
  · exact ⟨n, (h.others p hpq).trans hp⟩

theorem Recounted.counters_of_ne {s s' : State} {q : NodePtr} (h : Recounted s s' q)
    (hne : p ≠ q) : s'.counters p = s.counters p := by
  unfold State.counters
  rw [h.others p hne]

/-- Every request is processed to its end, and counted. -/
theorem request_counts (cfg : FeatureConfig) (hl : Linked r.state) :
    ∃ r', Relay.relayToDhcpServer cfg host r = .ok r' ∧ LivesOn r.state r'.state p ∧
      RequestCounts (helperCount (r.state.keysAt p)) (r.state.counters p) (r'.state.counters p)
        (requestResult cfg host r p) := by
  unfold requestResult
  cases hnode : Relay.requestNode host r with
  | none =>
    obtain ⟨pkt, hrun⟩ := @Relay.relayToDhcpServer_none host r cfg hnode
    exact ⟨_, hrun, ⟨hl, fun n hp => ⟨n, hp⟩⟩, rfl⟩
  | some found =>
    obtain ⟨ifName, q⟩ := found
    obtain ⟨-, -, -, -, hfind⟩ := Relay.requestNode_eq_some hnode
    obtain ⟨n, hq, -⟩ := (hl.shashFind_eq_some_iff ifName q).mp hfind
    have hrecounted := @Relay.requestRelayed_recounted host q r cfg ifName n hl hq
    refine ⟨Relay.requestRelayed cfg host ifName q n r, ?_, hrecounted.livesOn, ?_⟩
    · rw [Relay.relayToDhcpServer_some hnode]
      exact Relay.relayRequest_eq cfg ifName hl hq
    · by_cases hpq : q = p
      · subst hpq
        simp only [if_true, hq, Option.map_some]
        exact counters_requestRelayed cfg ifName hl hq
      · simp only [hpq, if_false]
        exact hrecounted.counters_of_ne (Ne.symm hpq)

end requests

/-! ## Replies -/

/-- The counters after the `sendmsg` of a reply. -/
def countReply (sent : Bool) (c : DhcpRelayPktCounter) : DhcpRelayPktCounter :=
  if sent then { c with servValids := c.servValids + 1 }
  else { c with servDrops := c.servDrops + 1 }

/-- The counters after a reply that option 82 processing dropped. -/
def serverDroppedWithOption82 (c : DhcpRelayPktCounter) : DhcpRelayPktCounter :=
  { c with servDropsWithOption82 := c.servDropsWithOption82 + 1 }

/-- The counters after a reply that option 82 processing found valid. -/
def serverValidWithOption82 (c : DhcpRelayPktCounter) : DhcpRelayPktCounter :=
  { c with servValidsWithOption82 := c.servValidsWithOption82 + 1 }

/-- The end of reply processing is reached in `rounds` rounds: the search for the message type
ends, and a unicast reply has a hardware address that fits into the ARP request. -/
def ReplyEnds (rounds : ℕ) (pkt : Packet) (dhcp : ℤ) : Prop :=
  ∃ option, dhcpPickupOpt rounds pkt dhcp (dhcpPktlen pkt) dhcpMsgtype = some option ∧
    ∀ sinAddr, Relay.replyDest pkt dhcp option = .unicast sinAddr →
      (pkt (dhcp + hlenOff)).toNat ≤ arpReqRoom

section replies

variable {host : Host} {p : NodePtr} {r : Relay} {n : UdpfwdInterfaceNode}

theorem sendReply_eq (ifIndex : UInt32) (sinAddr : IpAddress) (hp : r.state.nodes p = some n) :
    ∃ r' sent, Relay.sendReply host ifIndex p sinAddr r = .ok r' ∧
      r'.state = r.state.counted p (countReply sent) := by
  unfold Relay.sendReply
  simp only [Relay.sendPktThroughSocket]
  rw [State.count_eq _ hp]
  exact ⟨_, host.sendmsg r.sent.length, rfl, rfl⟩

/-- The part after option 82 returns exactly if the end is reached, and then counts once. -/
theorem relayToClient_eq (rounds : ℕ) (ifIndex : UInt32) (ifName : CString) (dhcp : ℤ)
    (hp : r.state.nodes p = some n) :
    (ReplyEnds rounds r.pkt dhcp → ∃ r' sent,
      Relay.relayToClient rounds host ifIndex ifName p dhcp r = .ok r' ∧
        r'.state = r.state.counted p (countReply sent)) ∧
    (¬ReplyEnds rounds r.pkt dhcp → ∃ fault,
      Relay.relayToClient rounds host ifIndex ifName p dhcp r = .error fault) := by
  unfold ReplyEnds Relay.relayToClient
  cases hpick : dhcpPickupOpt rounds r.pkt dhcp (dhcpPktlen r.pkt) dhcpMsgtype with
  | none => exact ⟨fun h => absurd h (by simp), fun _ => ⟨_, rfl⟩⟩
  | some option =>
    simp only [Option.some.injEq, exists_eq_left']
    cases hdest : Relay.replyDest r.pkt dhcp option with
    | broadcast =>
      exact ⟨fun _ => sendReply_eq ifIndex _ hp, fun h => absurd h (by simp)⟩
    | nowhere =>
      refine ⟨fun _ => ?_, fun h => absurd h (by simp)⟩
      simp only
      rw [State.count_eq _ hp]
      exact ⟨_, false, rfl, rfl⟩
    | unicast sinAddr =>
      simp only [Relay.ReplyDest.unicast.injEq, forall_eq']
      constructor
      · intro hroom
        rw [if_neg (Nat.not_lt_of_le hroom)]
        exact sendReply_eq ifIndex sinAddr hp
      · intro hover
        rw [if_pos (Nat.lt_of_not_le hover)]
        exact ⟨_, rfl⟩

/-- The interface a reply is for, with its index, and its node. -/
def replyNode (host : Host) (r : Relay) : Option (UInt32 × CString × NodePtr) :=
  let ifIndex := host.getIfIndexfromIpAddress (giaddr r.pkt)
  if ifIndex = Host.noIfIndex then none
  else
    match host.ifIndextoname ifIndex with
    | none => none
    | some ifName => (r.state.shashFind ifName).map fun p => (ifIndex, ifName, p)

/-- What option 82 processing makes of a reply. -/
def replyOutcome (cfg : FeatureConfig) (host : Host) (ifIndex : UInt32) (ifName : CString)
    (r : Relay) : Option82Outcome :=
  processDhcpRelayOption82Message cfg host (Relay.addToByte r.pkt ipTtlOff (-1)) ⟨0, 0⟩ ifIndex
    ifName 0

/-- What option 82 processing makes of a reply, if the node `p` is to relay it. -/
def replyResult (cfg : FeatureConfig) (host : Host) (r : Relay) (p : NodePtr) :
    Option Option82Result :=
  match replyNode host r with
  | none => none
  | some (ifIndex, ifName, q) =>
    if q = p then some (replyOutcome cfg host ifIndex ifName r).result else none

/-- A reply is dropped by option 82 processing, or its end is reached. -/
def ReplyReturns (rounds : ℕ) (cfg : FeatureConfig) (host : Host) (r : Relay) : Prop :=
  ∀ ifIndex ifName p, replyNode host r = some (ifIndex, ifName, p) →
    (replyOutcome cfg host ifIndex ifName r).result = .dropped ∨
      ReplyEnds rounds (replyOutcome cfg host ifIndex ifName r).pkt (dhcp r.pkt)

/-- The counters of a node after a reply. -/
def ReplyCounts (c c' : DhcpRelayPktCounter) : Option Option82Result → Prop
  | none => c' = c
  | some .dropped => c' = serverDroppedWithOption82 c
  | some .valid => ∃ sent, c' = countReply sent (serverValidWithOption82 c)
  | some .noop => ∃ sent, c' = countReply sent c

theorem relayToDhcpClient_none (rounds : ℕ) (cfg : FeatureConfig) (h : replyNode host r = none) :
    ∃ pkt, Relay.relayToDhcpClient rounds cfg host r = .ok { r with pkt } := by
  unfold replyNode at h
  unfold Relay.relayToDhcpClient
  by_cases hindex : host.getIfIndexfromIpAddress (giaddr r.pkt) = Host.noIfIndex
  · exact ⟨r.pkt, by simp only [hindex, if_true]⟩
  · simp only [hindex, if_false] at h ⊢
    cases hname : host.ifIndextoname (host.getIfIndexfromIpAddress (giaddr r.pkt)) with
    | none => exact ⟨r.pkt, rfl⟩
    | some ifName =>
      simp only [hname, Option.map_eq_none_iff] at h
      simp only [h]
      exact ⟨_, rfl⟩

theorem replyNode_eq_some {ifIndex : UInt32} {ifName : CString}
    (h : replyNode host r = some (ifIndex, ifName, p)) :
    ifIndex = host.getIfIndexfromIpAddress (giaddr r.pkt) ∧ ifIndex ≠ Host.noIfIndex ∧
      host.ifIndextoname ifIndex = some ifName ∧ r.state.shashFind ifName = some p := by
  unfold replyNode at h
  by_cases hindex : host.getIfIndexfromIpAddress (giaddr r.pkt) = Host.noIfIndex
  · rw [if_pos hindex] at h
    exact absurd h (by simp)
  · rw [if_neg hindex] at h
    cases hname : host.ifIndextoname (host.getIfIndexfromIpAddress (giaddr r.pkt)) with
    | none => simp [hname] at h
    | some name =>
      simp only [hname, Option.map_eq_some_iff, Prod.mk.injEq] at h
      obtain ⟨q, hfind, rfl, rfl, rfl⟩ := h
      exact ⟨rfl, hindex, hname, hfind⟩

/-- A reply at its node, whatever option 82 processing makes of it. -/
theorem relayToDhcpClient_eq (rounds : ℕ) (cfg : FeatureConfig) {ifIndex : UInt32}
    {ifName : CString} (h : replyNode host r = some (ifIndex, ifName, p))
    (hp : r.state.nodes p = some n) :
    let outcome := replyOutcome cfg host ifIndex ifName r
    let toClient := Relay.relayToClient rounds host ifIndex ifName p (dhcp r.pkt)
    Relay.relayToDhcpClient rounds cfg host r =
      match outcome.result with
      | .dropped =>
        .ok { r with pkt := outcome.pkt, state := r.state.counted p serverDroppedWithOption82 }
      | .valid => toClient
        { r with pkt := outcome.pkt, state := r.state.counted p serverValidWithOption82 }
      | .noop => toClient { r with pkt := outcome.pkt } := by
  obtain ⟨hindex, hne, hname, hfind⟩ := replyNode_eq_some h
  intro outcome toClient
  have houtcome : processDhcpRelayOption82Message cfg host (Relay.addToByte r.pkt ipTtlOff (-1))
      ⟨0, 0⟩ ifIndex ifName 0 = outcome := rfl
  unfold Relay.relayToDhcpClient
  rw [← hindex]
  simp only [hne, if_false, hname, hfind, houtcome]
  clear_value outcome
  cases hresult : outcome.result with
  | dropped =>
    dsimp only
    rw [State.count_eq _ hp]
    rfl
  | valid =>
    dsimp only
    rw [State.count_eq _ hp, ok_bind]
    rfl
  | noop => rfl

/-- A reply at its node: it returns, and is counted, exactly if it is dropped or its end is
reached. -/
theorem relayToDhcpClient_some (rounds : ℕ) (cfg : FeatureConfig) {ifIndex : UInt32}
    {ifName : CString} (h : replyNode host r = some (ifIndex, ifName, p)) (hl : Linked r.state)
    (hp : r.state.nodes p = some n) :
    let outcome := replyOutcome cfg host ifIndex ifName r
    (outcome.result = .dropped ∨ ReplyEnds rounds outcome.pkt (dhcp r.pkt) → ∃ r',
      Relay.relayToDhcpClient rounds cfg host r = .ok r' ∧ Recounted r.state r'.state p ∧
        ReplyCounts (r.state.counters p) (r'.state.counters p) (some outcome.result)) ∧
    (¬(outcome.result = .dropped ∨ ReplyEnds rounds outcome.pkt (dhcp r.pkt)) → ∃ fault,
      Relay.relayToDhcpClient rounds cfg host r = .error fault) := by
  have hstart : Recounted r.state r.state p := .refl hl hp
  have hrun := relayToDhcpClient_eq rounds cfg h hp
  intro outcome
  have houtcome : replyOutcome cfg host ifIndex ifName r = outcome := rfl
  simp only [houtcome] at hrun
  rw [hrun]
  clear_value outcome
  cases hresult : outcome.result with
  | dropped =>
    refine ⟨fun _ => ?_, fun hnot => absurd (Or.inl rfl) hnot⟩
    exact ⟨_, rfl, hstart.counted serverDroppedWithOption82, State.counters_counted _ hp⟩
  | valid =>
    dsimp only
    rw [or_iff_right (by simp)]
    -- counted as valid first, and then as the client is served
    have hvalid := hstart.counted serverValidWithOption82
    have hnode := State.nodes_counted serverValidWithOption82 hp
    have hclient := @relayToClient_eq host p { r with
      pkt := outcome.pkt, state := r.state.counted p serverValidWithOption82 } _ rounds ifIndex
      ifName (dhcp r.pkt) hnode
    refine ⟨fun hends => ?_, hclient.2⟩
    obtain ⟨r', sent, hrun, hstate⟩ := hclient.1 hends
    refine ⟨r', hrun, ?_, sent, ?_⟩
    · rw [hstate]
      exact hvalid.counted _
    · rw [hstate]
      show (State.counted _ p _).counters p = _
      rw [State.counters_counted _ hnode, State.counters_counted _ hp]
  | noop =>
    dsimp only
    rw [or_iff_right (by simp)]
    have hclient := @relayToClient_eq host p { r with pkt := outcome.pkt } _ rounds ifIndex
      ifName (dhcp r.pkt) hp
    refine ⟨fun hends => ?_, hclient.2⟩
    obtain ⟨r', sent, hrun, hstate⟩ := hclient.1 hends
    refine ⟨r', hrun, ?_, sent, ?_⟩
    · rw [hstate]
      exact hstart.counted _
    · rw [hstate]
      exact State.counters_counted _ hp

/-- A reply that returns is counted once. -/
theorem reply_counts (rounds : ℕ) (cfg : FeatureConfig) (hl : Linked r.state) :
    (ReplyReturns rounds cfg host r → ∃ r', Relay.relayToDhcpClient rounds cfg host r = .ok r') ∧
    ∀ r', Relay.relayToDhcpClient rounds cfg host r = .ok r' →
      ReplyReturns rounds cfg host r ∧ LivesOn r.state r'.state p ∧
        ReplyCounts (r.state.counters p) (r'.state.counters p) (replyResult cfg host r p) := by
  unfold ReplyReturns replyResult
  cases hnode : replyNode host r with
  | none =>
    obtain ⟨pkt, hrun⟩ := relayToDhcpClient_none rounds cfg hnode
    refine ⟨fun _ => ⟨_, hrun⟩, fun r' hrun' => ?_⟩
    rw [hrun, Except.ok.injEq] at hrun'
    subst hrun'
    exact ⟨fun _ _ _ h => absurd h (by simp), ⟨hl, fun n hp => ⟨n, hp⟩⟩, rfl⟩
  | some found =>
    obtain ⟨ifIndex, ifName, q⟩ := found
    obtain ⟨-, -, -, hfind⟩ := replyNode_eq_some hnode
    obtain ⟨n, hq, -⟩ := (hl.shashFind_eq_some_iff ifName q).mp hfind
    obtain ⟨hends, hfails⟩ := relayToDhcpClient_some rounds cfg hnode hl hq
    constructor
    · intro hreturns
      obtain ⟨r', hrun, -⟩ := hends (hreturns ifIndex ifName q rfl)
      exact ⟨r', hrun⟩
    · intro r' hrun
      have hcase : (replyOutcome cfg host ifIndex ifName r).result = .dropped ∨
          ReplyEnds rounds (replyOutcome cfg host ifIndex ifName r).pkt (dhcp r.pkt) := by
        by_contra hnot
        obtain ⟨fault, herror⟩ := hfails hnot
        rw [hrun] at herror
        exact absurd herror (by simp)
      obtain ⟨r₁, hrun₁, hrecounted, hcounts⟩ := hends hcase
      rw [hrun, Except.ok.injEq] at hrun₁
      subst hrun₁
      refine ⟨?_, hrecounted.livesOn, ?_⟩
      · intro i name q' h
        obtain ⟨rfl, rfl, rfl⟩ : ifIndex = i ∧ ifName = name ∧ q = q' := by simpa using h
        exact hcase
      · by_cases hpq : q = p
        · subst hpq
          simp only [if_true]
          exact hcounts
        · simp only [hpq, if_false]
          exact hrecounted.counters_of_ne (Ne.symm hpq)

end replies

/-! ## The life of an interface node -/

/-- What an interface node was asked to do since it was created. -/
structure Tally where
  /-- The helpers of the interface, summed over the requests it relayed. -/
  relayed : ℕ := 0
  requestsDropped : ℕ := 0
  requestsValid : ℕ := 0
  replies : ℕ := 0
  repliesValid : ℕ := 0
  deriving DecidableEq

/-- A request that found the node with `k` helpers. -/
def Tally.request (k : ℕ) (t : Tally) : Option Option82Result → Tally
  | none => t
  | some .dropped => { t with requestsDropped := t.requestsDropped + 1 }
  | some .valid => { t with relayed := t.relayed + k, requestsValid := t.requestsValid + 1 }
  | some .noop => { t with relayed := t.relayed + k }

/-- A reply that found the node. -/
def Tally.reply (t : Tally) : Option Option82Result → Tally
  | none => t
  | some .valid => { t with replies := t.replies + 1, repliesValid := t.repliesValid + 1 }
  | some _ => { t with replies := t.replies + 1 }

/-- The states the node `p` lives through, from its creation on: requests and replies that
were processed to their end, on any host and under any configuration, and changes of the
configuration in between. -/
inductive Life (p : NodePtr) : State → Tally → Prop
  | created {s : State} {n : UdpfwdInterfaceNode} : Linked s → s.nodes p = some n →
      n.dhcpRelayPktCounters = {} → Life p s {}
  | request {r r' : Relay} {t : Tally} (cfg : FeatureConfig) (host : Host) : Life p r.state t →
      Relay.relayToDhcpServer cfg host r = .ok r' →
      Life p r'.state
        (t.request (helperCount (r.state.keysAt p)) (requestResult cfg host r p))
  | reply {r r' : Relay} {t : Tally} (rounds : ℕ) (cfg : FeatureConfig) (host : Host) :
      Life p r.state t → Relay.relayToDhcpClient rounds cfg host r = .ok r' →
      Life p r'.state (t.reply (replyResult cfg host r p))
  | reconfigured {s s' : State} {n : UdpfwdInterfaceNode} {t : Tally} : Life p s t →
      Linked s' → s'.nodes p = some n → s'.counters p = s.counters p → Life p s' t

/-- The counters add up to the tally, modulo 2^32. -/
structure Conserved (c : DhcpRelayPktCounter) (t : Tally) : Prop where
  relayed : c.clientValids + c.clientDrops = UInt32.ofNat t.relayed
  requestsDropped : c.clientDropsWithOption82 = UInt32.ofNat t.requestsDropped
  requestsValid : c.clientValidsWithOption82 = UInt32.ofNat t.requestsValid
  replies : c.servValids + c.servDrops + c.servDropsWithOption82 = UInt32.ofNat t.replies
  repliesValid : c.servValidsWithOption82 = UInt32.ofNat t.repliesValid

/-- Exactly one of the three counters of replies is one higher. -/
def ReplyCounted (c c' : DhcpRelayPktCounter) : Prop :=
  (c'.servValids = c.servValids + 1 ∧ c'.servDrops = c.servDrops ∧
      c'.servDropsWithOption82 = c.servDropsWithOption82) ∨
    (c'.servValids = c.servValids ∧ c'.servDrops = c.servDrops + 1 ∧
      c'.servDropsWithOption82 = c.servDropsWithOption82) ∨
    (c'.servValids = c.servValids ∧ c'.servDrops = c.servDrops ∧
      c'.servDropsWithOption82 = c.servDropsWithOption82 + 1)

section life

variable {p : NodePtr} {t : Tally} {c c' : DhcpRelayPktCounter}

theorem countReply_replyCounted (sent : Bool) (c : DhcpRelayPktCounter) :
    ReplyCounted c (countReply sent c) := by
  cases sent with
  | true => exact Or.inl ⟨rfl, rfl, rfl⟩
  | false => exact Or.inr (Or.inl ⟨rfl, rfl, rfl⟩)

theorem ReplyCounts.replyCounted {result : Option82Result}
    (h : ReplyCounts c c' (some result)) : ReplyCounted c c' := by
  cases result with
  | dropped =>
    rw [show c' = serverDroppedWithOption82 c from h]
    exact Or.inr (Or.inr ⟨rfl, rfl, rfl⟩)
  | valid =>
    obtain ⟨sent, rfl⟩ := h
    exact countReply_replyCounted sent (serverValidWithOption82 c)
  | noop =>
    obtain ⟨sent, rfl⟩ := h
    exact countReply_replyCounted sent c

theorem ReplyCounted.total (h : ReplyCounted c c') :
    c'.servValids + c'.servDrops + c'.servDropsWithOption82
      = c.servValids + c.servDrops + c.servDropsWithOption82 + 1 := by
  unfold ReplyCounted at h
  grind

/-- A round of the loop over the servers touches two counters. -/
theorem CountsSent.conserved {k : ℕ} (h : CountsSent k c c') (hc : Conserved c t) :
    Conserved c' { t with relayed := t.relayed + k } := by
  refine ⟨?_, ?_, ?_, ?_, ?_⟩
  · show _ = UInt32.ofNat (t.relayed + k)
    rw [h.sent, hc.relayed, UInt32.ofNat_add]
  · rw [h.others]
    exact hc.requestsDropped
  · rw [h.others]
    exact hc.requestsValid
  · rw [h.others]
    exact hc.replies
  · rw [h.others]
    exact hc.repliesValid

theorem Conserved.request {k : ℕ} {result : Option Option82Result} (hc : Conserved c t)
    (h : RequestCounts k c c' result) : Conserved c' (t.request k result) := by
  match result, h with
  | none, h =>
    rw [show c' = c from h]
    exact hc
  | some .dropped, h =>
    rw [show c' = Relay.clientDroppedWithOption82 c from h]
    refine ⟨hc.relayed, ?_, hc.requestsValid, hc.replies, hc.repliesValid⟩
    show c.clientDropsWithOption82 + 1 = UInt32.ofNat (t.requestsDropped + 1)
    rw [hc.requestsDropped, UInt32.ofNat_add]
    rfl
  | some .valid, h =>
    have hvalid : Conserved (Relay.clientValidWithOption82 c)
        { t with requestsValid := t.requestsValid + 1 } := by
      refine ⟨hc.relayed, hc.requestsDropped, ?_, hc.replies, hc.repliesValid⟩
      show c.clientValidsWithOption82 + 1 = UInt32.ofNat (t.requestsValid + 1)
      rw [hc.requestsValid, UInt32.ofNat_add]
      rfl
    exact CountsSent.conserved h hvalid
  | some .noop, h => exact CountsSent.conserved h hc

/-- A reply leaves the counters of requests alone. -/
theorem countReply_conserved (sent : Bool) (hc : Conserved c t) :
    Conserved (countReply sent c) { t with replies := t.replies + 1 } := by
  have htotal := (countReply_replyCounted sent c).total
  have hreplies : (countReply sent c).servValids + (countReply sent c).servDrops
      + (countReply sent c).servDropsWithOption82 = UInt32.ofNat (t.replies + 1) := by
    rw [htotal, hc.replies, UInt32.ofNat_add]
    rfl
  cases sent with
  | true => exact ⟨hc.relayed, hc.requestsDropped, hc.requestsValid, hreplies, hc.repliesValid⟩
  | false => exact ⟨hc.relayed, hc.requestsDropped, hc.requestsValid, hreplies, hc.repliesValid⟩

theorem Conserved.reply {result : Option Option82Result} (hc : Conserved c t)
    (h : ReplyCounts c c' result) : Conserved c' (t.reply result) := by
  match result, h with
  | none, h =>
    rw [show c' = c from h]
    exact hc
  | some .dropped, h =>
    have htotal := (ReplyCounts.replyCounted h).total
    rw [show c' = serverDroppedWithOption82 c from h] at htotal ⊢
    refine ⟨hc.relayed, hc.requestsDropped, hc.requestsValid, ?_, hc.repliesValid⟩
    rw [htotal, hc.replies]
    exact (UInt32.ofNat_add ..).symm
  | some .valid, h =>
    obtain ⟨sent, rfl⟩ := h
    have hvalid : Conserved (serverValidWithOption82 c)
        { t with repliesValid := t.repliesValid + 1 } := by
      refine ⟨hc.relayed, hc.requestsDropped, hc.requestsValid, hc.replies, ?_⟩
      show c.servValidsWithOption82 + 1 = UInt32.ofNat (t.repliesValid + 1)
      rw [hc.repliesValid, UInt32.ofNat_add]
      rfl
    exact countReply_conserved sent hvalid
  | some .noop, h =>
    obtain ⟨sent, rfl⟩ := h
    exact countReply_conserved sent hc

/-- In every state of its life the node is in a linked cache, and its counters add up. -/
theorem Life.invariant {s : State} (h : Life p s t) :
    Linked s ∧ (∃ n, s.nodes p = some n) ∧ Conserved (s.counters p) t := by
  induction h with
  | @created s n hl hp hzero =>
    refine ⟨hl, ⟨n, hp⟩, ?_⟩
    have hcounters : s.counters p = {} := by
      unfold State.counters
      simp only [hp, hzero]
    rw [hcounters]
    exact ⟨rfl, rfl, rfl, rfl, rfl⟩
  | request cfg host _ hrun ih =>
    obtain ⟨hl, ⟨n, hp⟩, hc⟩ := ih
    obtain ⟨r₁, hrun₁, hlives, hcounts⟩ := @request_counts host p _ cfg hl
    rw [hrun, Except.ok.injEq] at hrun₁
    subst hrun₁
    exact ⟨hlives.linked, hlives.node n hp, hc.request hcounts⟩
  | reply rounds cfg host _ hrun ih =>
    obtain ⟨hl, ⟨n, hp⟩, hc⟩ := ih
    obtain ⟨-, hlives, hcounts⟩ := (@reply_counts host p _ rounds cfg hl).2 _ hrun
    exact ⟨hlives.linked, hlives.node n hp, hc.reply hcounts⟩
  | reconfigured _ hl hp hcounters ih =>
    refine ⟨hl, ⟨_, hp⟩, ?_⟩
    rw [hcounters]
    exact ih.2.2

end life

end Udpfwd
end IpApps
