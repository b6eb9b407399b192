import IpApps.Udpfwd.Configuration
import IpApps.Udpfwd.PacketCounters

/-!
# Packets between the changes

Whatever a packet is, the daemon changes counters of the cache for it and nothing else. A cache in
order stays so, and its interfaces keep their servers and their gateways.
-/

namespace IpApps
namespace Udpfwd

open ExceptLoops

/-! ## Counters -/

/-- `s'` is `s` with counters of nodes changed, one after the other. -/
inductive CountersChange (s : State) : State → Prop
  | refl : CountersChange s s
  | counted {s' : State} (p : NodePtr) (f : DhcpRelayPktCounter → DhcpRelayPktCounter) :
      CountersChange s s' → CountersChange s (s'.counted p f)

section counted

variable {s s' : State} {p : NodePtr} {f : DhcpRelayPktCounter → DhcpRelayPktCounter}

theorem State.servers_counted : (s.counted p f).servers = s.servers := by
  unfold State.counted
  cases s.nodes p with
  | none => rfl
  | some n => rfl

theorem CacheInv.counters (h : CacheInv s) : CacheInv (s.counted p f) := by
  have htotal : ∀ q, (s.counted p f).refTotal q = s.refTotal q := by
    intro q
    unfold State.refTotal
    rw [State.table_counted]
    simp only [State.refsAt_counted]
  refine ⟨State.linked_counted h.linked f, ?_, ?_⟩
  · intro q r hq
    rw [State.servers_counted] at hq
    exact h.counted.positive q r hq
  · intro q r hq
    rw [State.servers_counted] at hq
    rw [htotal]
    exact h.counted.total q r hq

theorem shashFind_counted (name : CString) :
    (s.counted p f).shashFind name = s.shashFind name := by
  unfold State.shashFind
  rw [State.table_counted]

/-- A node keeps its name, its servers and its gateway. -/
theorem interface_counted (name : CString) :
    ((s.counted p f).interface name).map (fun intf => (intf.2, intf.1.bootpGw))
      = (s.interface name).map fun intf => (intf.2, intf.1.bootpGw) := by
  unfold State.interface
  rw [shashFind_counted]
  cases s.shashFind name with
  | none => rfl
  | some q =>
    dsimp only
    rw [State.keysAt_counted]
    by_cases hqp : q = p
    · subst hqp
      cases hq : s.nodes q with
      | none =>
        have hsame : s.counted q f = s := by
          unfold State.counted
          simp only [hq]
        rw [hsame, hq]
      | some n =>
        rw [State.nodes_counted f hq]
        rfl
    · rw [State.nodes_counted_of_ne f hqp]

theorem shown_counted (name : CString) : (s.counted p f).shown name = s.shown name := by
  have hsame := @interface_counted s p f name
  unfold State.shown State.serversOf State.bootpGwOf
  cases hnew : (s.counted p f).interface name with
  | none =>
    rw [hnew, Option.map_none, eq_comm, Option.map_eq_none_iff] at hsame
    rw [hsame]
  | some intf =>
    rw [hnew, Option.map_some, eq_comm, Option.map_eq_some_iff] at hsame
    obtain ⟨old, hold, heq⟩ := hsame
    obtain ⟨hservers, hgateway⟩ := Prod.mk.inj heq
    rw [hold]
    dsimp only
    rw [hservers, hgateway]

theorem Within.counters {ports : Finset CString} (h : Within ports s) :
    Within ports (s.counted p f) := by
  have hservers : ∀ name, (s.counted p f).serversOf name = s.serversOf name := fun name =>
    congrArg Prod.fst (shown_counted name)
  refine ⟨?_, ?_, ?_⟩
  · obtain ⟨c, rfl⟩ := h.cache
    refine ⟨⟨c.state.counted p f, c.inv.counters, ?_⟩, rfl⟩
    intro e he k hk
    rw [State.table_counted] at he
    rw [State.keysAt_counted] at hk
    exact c.addressed e he k hk
  · intro name
    rw [hservers]
    exact h.once name
  · intro name hname
    rw [hservers]
    exact h.ports name hname

theorem CountersChange.within {ports : Finset CString} (h : CountersChange s s')
    (hs : Within ports s) : Within ports s' := by
  induction h with
  | refl => exact hs
  | counted p f _ ih => exact ih.counters

theorem CountersChange.shown_eq (h : CountersChange s s') (name : CString) :
    s'.shown name = s.shown name := by
  induction h with
  | refl => rfl
  | counted p f _ ih => rw [shown_counted, ih]

theorem CountersChange.agrees {g : Config} (h : CountersChange s s') (hs : Agrees s g) :
    Agrees s' g := by
  intro name
  rw [h.shown_eq]
  exact hs name

end counted

/-! ## Requests and replies -/

section packets

variable {host : Host} {p : NodePtr} {r r' : Relay} {s : State}

theorem relayLoop_counters {size : ℕ} {interfaceIp : IpAddress} (h : CountersChange s r.state)
    (ks : List ServerKey) :
    CountersChange s (ks.foldl (Relay.relayToKey host size interfaceIp p) r).state := by
  induction ks generalizing r with
  | nil => exact h
  | cons k ks ih =>
    rw [List.foldl_cons]
    apply ih
    unfold Relay.relayToKey
    split
    · exact h
    · exact h.counted p _

theorem requestRelayed_counters (cfg : FeatureConfig) (ifName : CString)
    (n : UdpfwdInterfaceNode) :
    CountersChange r.state (Relay.requestRelayed cfg host ifName p n r).state := by
  unfold Relay.requestRelayed Relay.relayedTo
  dsimp only
  split
  · exact .counted p _ .refl
  · exact relayLoop_counters (.counted p _ .refl) _
  · apply relayLoop_counters
    dsimp only
    exact .refl

/-- A request is always processed to its end. -/
theorem request_returns (cfg : FeatureConfig) (hl : Linked r.state) :
    ∃ r', Relay.relayToDhcpServer cfg host r = .ok r' ∧ CountersChange r.state r'.state := by
  cases hnode : Relay.requestNode host r with
  | none =>
    obtain ⟨pkt, hrun⟩ := @Relay.relayToDhcpServer_none host r cfg hnode
    exact ⟨_, hrun, .refl⟩
  | some found =>
    obtain ⟨ifName, q⟩ := found
    obtain ⟨-, -, -, -, hfind⟩ := Relay.requestNode_eq_some hnode
    obtain ⟨n, hq, -⟩ := (hl.shashFind_eq_some_iff ifName q).mp hfind
    refine ⟨Relay.requestRelayed cfg host ifName q n r, ?_, requestRelayed_counters cfg ifName n⟩
    rw [Relay.relayToDhcpServer_some hnode]
    exact Relay.relayRequest_eq cfg ifName hl hq

/-- The part after option 82 counts once if it returns. -/
theorem relayToClient_counters {rounds : ℕ} {ifIndex : UInt32} {ifName : CString} {dhcp : ℤ}
    {n : UdpfwdInterfaceNode} (hp : r.state.nodes p = some n) (hs : CountersChange s r.state)
    (hrun : Relay.relayToClient rounds host ifIndex ifName p dhcp r = .ok r') :
    CountersChange s r'.state := by
  obtain ⟨hends, hfails⟩ := @relayToClient_eq host p r n rounds ifIndex ifName dhcp hp
  by_cases hcase : ReplyEnds rounds r.pkt dhcp
  · obtain ⟨r₁, sent, hrun₁, hstate⟩ := hends hcase
    obtain rfl : r₁ = r' := Except.ok.inj (hrun₁.symm.trans hrun)
    rw [hstate]
    exact hs.counted p _
  · obtain ⟨fault, herror⟩ := hfails hcase
    rw [hrun] at herror
    cases herror

theorem reply_counters {rounds : ℕ} {cfg : FeatureConfig} (hl : Linked r.state)
    (hrun : Relay.relayToDhcpClient rounds cfg host r = .ok r') :
    CountersChange r.state r'.state := by
  cases hnode : replyNode host r with
  | none =>
    obtain ⟨pkt, hrun'⟩ := relayToDhcpClient_none rounds cfg hnode
    obtain rfl : { r with pkt } = r' := Except.ok.inj (hrun'.symm.trans hrun)
    exact .refl
  | some found =>
    obtain ⟨ifIndex, ifName, q⟩ := found
    obtain ⟨-, -, -, hfind⟩ := replyNode_eq_some hnode
    obtain ⟨n, hq, -⟩ := (hl.shashFind_eq_some_iff ifName q).mp hfind
    have heq := relayToDhcpClient_eq rounds cfg hnode hq
    dsimp only at heq
    rw [heq] at hrun
    split at hrun
    · obtain rfl := Except.ok.inj hrun
      exact .counted q _ .refl
    · exact relayToClient_counters (State.nodes_counted _ hq) (.counted q _ .refl) hrun
    · have hstart : CountersChange r.state r.state := .refl
      revert hrun
      generalize (replyOutcome cfg host ifIndex ifName r).pkt = pkt
      exact fun hrun => relayToClient_counters (r := { r with pkt }) hq hstart hrun

theorem forwardLoop_state {size : ℕ} {interfaceIp : IpAddress} {udpDport : UInt16}
    (ks : List ServerKey) :
    (ks.foldl (Relay.forwardToKey host udpDport size interfaceIp) r).state = r.state := by
  induction ks generalizing r with
  | nil => rfl
  | cons k ks ih =>
    rw [List.foldl_cons, ih]
    unfold Relay.forwardToKey
    split <;> rfl

/-- The forwarder counts nothing. -/
theorem forward_returns {udpDport : UInt16} {size : ℕ} (hl : Linked r.state) :
    ∃ r', Relay.forwardPacket host udpDport size r = .ok r' ∧ r'.state = r.state := by
  refine ⟨_, Relay.forwardPacket_eq udpDport hl, ?_⟩
  unfold Relay.forwarded
  split
  · rfl
  · exact forwardLoop_state _

end packets

/-! ## Arrivals -/

/-- A packet of `size` bytes, and what the daemon is configured for and finds on the host when it
receives it. -/
structure Arrival where
  rounds : ℕ
  cfg : FeatureConfig
  host : Host
  size : ℕ
  pkt : Packet
  pktInfo : InPktinfo

namespace Arrival

variable (a : Arrival) {s : State}

/-- The packet on its way through a daemon with the cache `s`. -/
def relay (s : State) : Relay := { pkt := a.pkt, pktInfo := a.pktInfo, state := s }

/-- `udpfwd_ctrl` on the packet. -/
def run (s : State) : Except Fault Relay :=
  Relay.udpfwdCtrl a.rounds a.cfg a.host a.size (a.relay s)

/-- The port the packet is for. -/
def dest : UInt16 := UInt16.ofNat (ntohs a.pkt (udph a.pkt + uhDportOff))

/-- The packet is for the DHCP relay, which is enabled. -/
def ForRelay : Prop := (a.dest = dhcpsPort ∨ a.dest = dhcpcPort) ∧ a.cfg.enabled .dhcpRelay

/-- The packet is a reply to be relayed. -/
def IsReply : Prop :=
  a.ForRelay ∧ dhcpOp a.pkt = bootreply ∧ ipAt a.pkt ipDstOff ≠ ipAddressBcast

/-- If the packet is a reply to be relayed, the search of its options ends and its hardware
address fits into an ARP request. -/
def Ends (s : State) : Prop :=
  a.IsReply → ReplyReturns a.rounds a.cfg a.host (a.relay s)

theorem run_eq : a.run s =
    if a.dest = dhcpsPort ∨ a.dest = dhcpcPort then
      if ¬a.cfg.enabled .dhcpRelay then .ok (a.relay s)
      else if dhcpOp a.pkt = bootrequest then Relay.relayToDhcpServer a.cfg a.host (a.relay s)
      else if dhcpOp a.pkt = bootreply then
        if ipAt a.pkt ipDstOff ≠ ipAddressBcast then
          Relay.relayToDhcpClient a.rounds a.cfg a.host (a.relay s)
        else .ok (a.relay s)
      else .ok (a.relay s)
    else if ¬a.cfg.enabled .udpBcastForwarder then .ok (a.relay s)
    else Relay.forwardPacket a.host a.dest a.size (a.relay s) := rfl

/-- A packet that is processed to its end changes counters only. -/
theorem run_of_ends (hl : Linked s) (hends : a.Ends s) :
    ∃ r', a.run s = .ok r' ∧ CountersChange s r'.state := by
  have hl' : Linked (a.relay s).state := hl
  rw [a.run_eq]
  by_cases hport : a.dest = dhcpsPort ∨ a.dest = dhcpcPort
  · rw [if_pos hport]
    by_cases hon : a.cfg.enabled .dhcpRelay
    · rw [if_neg (not_not_intro hon)]
      by_cases hrequest : dhcpOp a.pkt = bootrequest
      · rw [if_pos hrequest]
        exact request_returns a.cfg hl'
      · rw [if_neg hrequest]
        by_cases hreply : dhcpOp a.pkt = bootreply
        · rw [if_pos hreply]
          by_cases hcast : ipAt a.pkt ipDstOff ≠ ipAddressBcast
          · rw [if_pos hcast]
            obtain ⟨r', hrun⟩ :=
              (@reply_counts a.host 0 _ a.rounds a.cfg hl').1 (hends ⟨⟨hport, hon⟩, hreply, hcast⟩)
            exact ⟨r', hrun, reply_counters hl' hrun⟩
          · rw [if_neg hcast]
            exact ⟨_, rfl, .refl⟩
        · rw [if_neg hreply]
          exact ⟨_, rfl, .refl⟩
    · rw [if_pos hon]
      exact ⟨_, rfl, .refl⟩
  · rw [if_neg hport]
    by_cases hon : a.cfg.enabled .udpBcastForwarder
    · rw [if_neg (not_not_intro hon)]
      obtain ⟨r', hrun, hstate⟩ := @forward_returns a.host (a.relay s) a.dest a.size hl'
      refine ⟨r', hrun, ?_⟩
      rw [hstate]
      exact .refl
    · rw [if_pos hon]
      exact ⟨_, rfl, .refl⟩

end Arrival

end Udpfwd
end IpApps
