import IpApps.Udpfwd.BroadcastForward
import IpApps.Udpfwd.ConfigRuns
import IpApps.Udpfwd.ProcessAgreement

/-!
# From the commands to the packets

What the commands have written decides where packets go. In every run in which the cache follows
the tables, a request goes to each helper address of its interface once and a broadcast to each
server of its interface and its port once, with no datagram beside these.
-/

namespace IpApps
namespace Udpfwd

open Memory Endian ExceptLoops Vty

/-! ## The servers for a packet -/

/-- The servers `ks` are those that the tables have for an interface and a port, each once. -/
structure Covers (t : ServerTables) (name : CString) (udpPort : UInt16) (ks : List ServerKey) :
    Prop where
  nodup : ks.Nodup
  mem : ∀ k, k ∈ ks ↔ k.2 = udpPort ∧ t.Serves name k

section covers

variable {s : State} {t : ServerTables} {name : CString} {udpPort : UInt16}
  {n : UdpfwdInterfaceNode} {ks : List ServerKey}

theorem serversOf_of_interface (hintf : s.interface name = some (n, ks)) :
    s.serversOf name = ks := by
  unfold State.serversOf
  rw [hintf]

theorem Synced.covers_some (h : Synced s t) (hintf : s.interface name = some (n, ks)) :
    Covers t name udpPort (ks.filter (·.2 = udpPort)) := by
  have hservers := serversOf_of_interface hintf
  constructor
  · have honce := h.once name
    rw [hservers, Multiset.coe_nodup] at honce
    exact honce.filter _
  · intro k
    rw [List.mem_filter, decide_eq_true_iff, ← h.servers name k, hservers, Multiset.mem_coe]
    exact and_comm

/-- An interface without a node has no servers. -/
theorem Synced.covers_none (h : Synced s t) (hintf : s.interface name = none) :
    Covers t name udpPort [] := by
  refine ⟨List.nodup_nil, fun k => iff_of_false List.not_mem_nil fun hk => ?_⟩
  have hmem := (h.servers name k).mpr hk.2
  rw [serversOf_eq_zero hintf] at hmem
  exact Multiset.notMem_zero k hmem

theorem Synced.gateway_eq (h : Synced s t) (hintf : s.interface name = some (n, ks)) :
    n.bootpGw = t.gateway name := by
  rw [← h.gateway name]
  unfold State.bootpGwOf
  rw [hintf]

end covers

/-! ## Requests -/

namespace Arrival

variable (a : Arrival) (name : CString)

/-- The packet came in on the interface, which has an address. IP delivers no packet with a header
of fewer than five words. -/
structure CameIn : Prop where
  headers : 5 ≤ ipHl a.pkt
  index : a.pktInfo.ipiIfindex ≠ Host.noIfIndex
  ifName : a.host.ifIndextoname a.pktInfo.ipiIfindex = some name
  address : a.host.getLowestIpOnInterface name ≠ 0

/-- A request to be relayed that came in on the interface. -/
structure RequestAt : Prop where
  cameIn : a.CameIn name
  forRelay : a.ForRelay
  op : dhcpOp a.pkt = bootrequest
  hops : ¬udpfwdDhcpMaxHops < a.pkt (dhcp a.pkt + hopsOff)

/-- Option 82 processing of a request on an interface with this gateway. -/
def option82Call (gateway : IpAddress) : Option82Call :=
  ⟨a.cfg, a.host, ⟨0, a.host.getLowestIpOnInterface name⟩, a.pktInfo.ipiIfindex, name, gateway⟩

/-- What it makes of the request. -/
def requestOutcome (gateway : IpAddress) : Option82Outcome :=
  (a.option82Call name gateway).process (Relay.countHop a.cfg (Relay.correctPort a.pkt))

/-- The request as it is when the loop over the servers starts. -/
def requestSent (gateway : IpAddress) : Packet :=
  Relay.stampGiaddr a.host name gateway (a.host.getLowestIpOnInterface name) (dhcp a.pkt)
    (a.requestOutcome name gateway).pkt

/-- A request that option 82 processing drops is sent to nobody, any other one to each helper. -/
structure SendsRequest (gateway : IpAddress) (ks : List ServerKey) (r' : Relay) : Prop where
  dropped : (a.requestOutcome name gateway).result = .dropped → r'.sent = []
  relayed : (a.requestOutcome name gateway).result ≠ .dropped →
    List.Forall₂ (fun k d => CarriesCopy (a.host.getLowestIpOnInterface name)
      (a.requestSent name gateway) (ntohs (a.requestSent name gateway) ipLenOff) k.1 d) ks r'.sent

variable {a name} {s : State}

/-- The headers stay where they are. -/
theorem udph_requestSent (gateway : IpAddress) :
    udph (a.requestSent name gateway) = udph a.pkt := by
  have hpos := udph_nonneg a.pkt
  apply udph_congr
  unfold requestSent
  rw [stampGiaddr_outside (Or.inl (by unfold dhcp udphdrLength giaddrOff; omega))]
  have hprocess : (a.requestOutcome name gateway).pkt 0
      = Relay.countHop a.cfg (Relay.correctPort a.pkt) 0 :=
    process_first _ _
  have hhops : Relay.countHop a.cfg (Relay.correctPort a.pkt) 0 = Relay.correctPort a.pkt 0 :=
    countHop_kept a.cfg (Or.inl rfl)
  exact hprocess.trans (hhops.trans correctPort_first)

theorem RequestAt.run_eq (h : a.RequestAt name) (s : State) :
    a.run s = Relay.relayToDhcpServer a.cfg a.host (a.relay s) := by
  rw [a.run_eq, if_pos h.forRelay.1, if_neg (not_not_intro h.forRelay.2), if_pos h.op]

theorem RequestAt.requestNode_eq (h : a.RequestAt name) (s : State) :
    Relay.requestNode a.host (a.relay s) = (s.shashFind name).map fun p => (name, p) := by
  have hindex : ¬(a.relay s).pktInfo.ipiIfindex = Host.noIfIndex := h.cameIn.index
  have hname : a.host.ifIndextoname (a.relay s).pktInfo.ipiIfindex = some name := h.cameIn.ifName
  have hhops : ¬udpfwdDhcpMaxHops < (a.relay s).pkt (dhcp (a.relay s).pkt + hopsOff) := h.hops
  unfold Relay.requestNode
  rw [if_neg hindex, hname]
  dsimp only
  rw [if_neg h.cameIn.address, if_neg hhops]
  rfl

/-- The request at its node. -/
theorem RequestAt.sends (h : a.RequestAt name) {s : State} {p : NodePtr}
    {n : UdpfwdInterfaceNode} (hfind : s.shashFind name = some p) (hl : Linked s)
    (hp : s.nodes p = some n) :
    ∃ r', a.run s = .ok r' ∧ a.SendsRequest name n.bootpGw
      ((s.keysAt p).filter (·.2 = dhcpsPort)) r' := by
  have hnode : Relay.requestNode a.host (a.relay s) = some (name, p) := by
    rw [h.requestNode_eq, hfind, Option.map_some]
  have hl' : Linked (a.relay s).state := hl
  have hp' : (a.relay s).state.nodes p = some n := hp
  refine ⟨Relay.requestRelayed a.cfg a.host name p n (a.relay s), ?_, ?_⟩
  · rw [h.run_eq, Relay.relayToDhcpServer_some hnode]
    exact Relay.relayRequest_eq a.cfg name hl' hp'
  have hudph : 20 ≤ udph (a.requestSent name n.bootpGw) := by
    have hheaders := h.cameIn.headers
    rw [udph_requestSent]
    unfold udph
    omega
  -- whatever the counters say, the loop starts with nothing sent
  have hloop : ∀ state : State, ∃ ds, (Relay.relayedTo a.host name n.bootpGw p (dhcp a.pkt)
      (s.keysAt p) { a.relay s with pkt := (a.requestOutcome name n.bootpGw).pkt, state }).sent
        = ds ∧ List.Forall₂ (fun k d => CarriesCopy (a.host.getLowestIpOnInterface name)
          (a.requestSent name n.bootpGw) (ntohs (a.requestSent name n.bootpGw) ipLenOff) k.1 d)
          ((s.keysAt p).filter (·.2 = dhcpsPort)) ds := by
    intro state
    obtain ⟨ds, hsent, hds⟩ := @sent_relayLoop a.host
      (ntohs (a.requestSent name n.bootpGw) ipLenOff) _ p _ hudph (s.keysAt p)
      { a.relay s with pkt := a.requestSent name n.bootpGw, state }
      (CopyOf.refl (a.host.getLowestIpOnInterface name) (a.requestSent name n.bootpGw))
    exact ⟨ds, hsent, hds⟩
  have houtcome : Relay.requestOutcome a.cfg a.host name n (a.relay s)
      = a.requestOutcome name n.bootpGw := rfl
  unfold Relay.requestRelayed
  dsimp only
  rw [houtcome]
  cases hresult : (a.requestOutcome name n.bootpGw).result with
  | dropped => exact ⟨fun _ => rfl, fun hne => absurd hresult hne⟩
  | valid =>
    obtain ⟨ds, hsent, hds⟩ := hloop (s.counted p Relay.clientValidWithOption82)
    refine ⟨fun heq => absurd (hresult.symm.trans heq) (by decide), fun _ => ?_⟩
    rw [← hsent] at hds
    exact hds
  | noop =>
    obtain ⟨ds, hsent, hds⟩ := hloop s
    refine ⟨fun heq => absurd (hresult.symm.trans heq) (by decide), fun _ => ?_⟩
    rw [← hsent] at hds
    exact hds

/-- Where a request goes is what the tables say. -/
theorem RequestAt.follows (h : a.RequestAt name) {s : State} {t : ServerTables} (hl : Linked s)
    (hsynced : Synced s t) :
    ∃ r' ks, a.run s = .ok r' ∧ Covers t name dhcpsPort ks ∧
      a.SendsRequest name (t.gateway name) ks r' := by
  cases hfind : s.shashFind name with
  | none =>
    have hnode : Relay.requestNode a.host (a.relay s) = none := by
      rw [h.requestNode_eq, hfind, Option.map_none]
    obtain ⟨pkt, hrun⟩ := @Relay.relayToDhcpServer_none a.host (a.relay s) a.cfg hnode
    refine ⟨_, [], (h.run_eq s).trans hrun, ?_, fun _ => rfl, fun _ => .nil⟩
    exact hsynced.covers_none ((interface_eq_none_iff hl).mpr hfind)
  | some p =>
    obtain ⟨n, hp, rfl⟩ := (hl.shashFind_eq_some_iff name p).mp hfind
    have hintf := interface_eq hl hp
    obtain ⟨r', hrun, hsends⟩ := h.sends hfind hl hp
    rw [hsynced.gateway_eq hintf] at hsends
    exact ⟨r', _, hrun, hsynced.covers_some hintf, hsends⟩

/-- A datagram is for one of the servers. -/
theorem exists_server_of_mem {R : ServerKey → Datagram → Prop} {ks : List ServerKey}
    {ds : List Datagram} (h : List.Forall₂ R ks ds) {d : Datagram} (hd : d ∈ ds) :
    ∃ k ∈ ks, R k d := by
  induction h with
  | nil => exact absurd hd List.not_mem_nil
  | @cons k d' ks ds hfirst hrest ih =>
    cases List.mem_cons.mp hd with
    | inl heq =>
      rw [heq]
      exact ⟨k, List.mem_cons_self, hfirst⟩
    | inr hlater =>
      obtain ⟨k', hk', hR⟩ := ih hlater
      exact ⟨k', List.mem_cons_of_mem k hk', hR⟩

/-- A datagram for the forwarder, which is enabled, that came in on the interface. -/
structure BroadcastAt (a : Arrival) (name : CString) : Prop where
  cameIn : a.CameIn name
  notDhcps : a.dest ≠ dhcpsPort
  notDhcpc : a.dest ≠ dhcpcPort
  enabled : a.cfg.enabled .udpBcastForwarder

/-- The datagram, when it is received. -/
def BroadcastAt.call (h : a.BroadcastAt name) {s : State} (hl : Linked s) : ForwardCall where
  rounds := a.rounds
  cfg := a.cfg
  host := a.host
  size := a.size
  r := a.relay s
  headers := by exact h.cameIn.headers
  notDhcps := by exact h.notDhcps
  notDhcpc := by exact h.notDhcpc
  linked := by exact hl
  sent := by rfl

theorem BroadcastAt.follows (h : a.BroadcastAt name) {s : State} {t : ServerTables}
    (hl : Linked s) (hsynced : Synced s t) :
    ∃ r' ks, a.run s = .ok r' ∧ Covers t name a.dest ks ∧
      List.Forall₂ (fun k d => ForwardedTo a.pkt a.size a.dest k.1 d) ks r'.sent := by
  obtain ⟨r', hrun, hfans⟩ := (h.call hl).udpfwdCtrl_fansOut
  refine ⟨r', (h.call hl).servers, hrun, ?_, hfans⟩
  have hindex : ¬(h.call hl).r.pktInfo.ipiIfindex = Host.noIfIndex := h.cameIn.index
  have hname : (h.call hl).ifName = some name := by
    unfold ForwardCall.ifName
    rw [if_neg hindex]
    exact h.cameIn.ifName
  have hon : (h.call hl).cfg.enabled .udpBcastForwarder := h.enabled
  have haddress : ¬(h.call hl).host.getLowestIpOnInterface name = 0 := h.cameIn.address
  have hstate : (h.call hl).r.state = s := rfl
  unfold ForwardCall.servers
  rw [if_neg (not_not_intro hon), hname]
  dsimp only
  rw [if_neg haddress, hstate]
  -- an interface without a node has no server configured
  cases hintf : s.interface name with
  | none => exact hsynced.covers_none hintf
  | some intf => exact hsynced.covers_some hintf

/-! ## Everything that is sent -/

theorem forwardNode_cameIn {host : Host} {r : Relay} {found : CString × NodePtr}
    (h : Relay.forwardNode host r = some found) :
    r.pktInfo.ipiIfindex ≠ Host.noIfIndex ∧
      host.ifIndextoname r.pktInfo.ipiIfindex = some found.1 ∧
      host.getLowestIpOnInterface found.1 ≠ 0 := by
  unfold Relay.forwardNode at h
  by_cases hindex : r.pktInfo.ipiIfindex = Host.noIfIndex
  · rw [if_pos hindex] at h
    cases h
  · rw [if_neg hindex] at h
    cases hname : host.ifIndextoname r.pktInfo.ipiIfindex with
    | none =>
      rw [hname] at h
      cases h
    | some name =>
      rw [hname] at h
      dsimp only at h
      by_cases hip : host.getLowestIpOnInterface name = 0
      · rw [if_pos hip] at h
        cases h
      · rw [if_neg hip, Option.map_eq_some_iff] at h
        obtain ⟨p, -, rfl⟩ := h
        exact ⟨hindex, rfl, hip⟩

/-- The end of reply processing sends one datagram, to the client port, or none. -/
theorem relayToClient_sent {rounds : ℕ} {host : Host} {ifIndex : UInt32} {ifName : CString}
    {p : NodePtr} {dhcp : ℤ} {r r' : Relay}
    (hrun : Relay.relayToClient rounds host ifIndex ifName p dhcp r = .ok r')
    (hsent : r.sent = []) : ∀ d ∈ r'.sent, d.sinPort = dhcpcPort := by
  -- the one call of sendmsg is for the client port
  have hsend : ∀ {sinAddr : IpAddress} {x : Relay}, x.sent = [] →
      Relay.sendReply host ifIndex p sinAddr x = .ok r' → ∀ d ∈ r'.sent, d.sinPort = dhcpcPort := by
    intro sinAddr x hx hreply d hd
    unfold Relay.sendReply at hreply
    obtain ⟨state, -, hreply⟩ := bind_eq_ok hreply
    obtain rfl := Except.ok.inj hreply
    have hd : d ∈ x.sent ++ [_] := hd
    rw [hx, List.nil_append, List.mem_singleton] at hd
    rw [hd]
  unfold Relay.relayToClient at hrun
  split at hrun
  · cases hrun
  · split at hrun
    · exact hsend hsent hrun
    · obtain ⟨state, -, hrun⟩ := bind_eq_ok hrun
      obtain rfl := Except.ok.inj hrun
      intro d hd
      have hd : d ∈ r.sent := hd
      rw [hsent] at hd
      exact absurd hd List.not_mem_nil
    · dsimp only at hrun
      split at hrun
      · cases hrun
      · refine hsend ?_ hrun
        exact hsent

theorem relayToDhcpClient_sent {rounds : ℕ} {cfg : FeatureConfig} {host : Host} {r r' : Relay}
    (hl : Linked r.state) (hrun : Relay.relayToDhcpClient rounds cfg host r = .ok r')
    (hsent : r.sent = []) : ∀ d ∈ r'.sent, d.sinPort = dhcpcPort := by
  have hnone : ∀ {x : Relay}, x.sent = [] → ∀ d ∈ x.sent, d.sinPort = dhcpcPort := by
    intro x hx d hd
    rw [hx] at hd
    exact absurd hd List.not_mem_nil
  cases hnode : replyNode host r with
  | none =>
    obtain ⟨pkt, hrun'⟩ := relayToDhcpClient_none rounds cfg hnode
    obtain rfl := Except.ok.inj (hrun'.symm.trans hrun)
    exact hnone hsent
  | some found =>
    obtain ⟨ifIndex, ifName, q⟩ := found
    obtain ⟨-, -, -, hfind⟩ := replyNode_eq_some hnode
    obtain ⟨n, hq, -⟩ := (hl.shashFind_eq_some_iff ifName q).mp hfind
    have heq := relayToDhcpClient_eq rounds cfg hnode hq
    dsimp only at heq
    -- option 82 processing drops the reply, or goes on with it as it is or as rewritten
    rw [heq] at hrun
    split at hrun
    · obtain rfl := Except.ok.inj hrun
      exact hnone hsent
    · exact relayToClient_sent hrun hsent
    · exact relayToClient_sent hrun hsent

/-- A packet that is no request, no broadcast and no reply to be relayed is not sent on. -/
theorem kind_of_run (hl : Linked s) (hheaders : 5 ≤ ipHl a.pkt) {r' : Relay}
    (hrun : a.run s = .ok r') :
    r'.sent = [] ∨ (∃ name, a.RequestAt name) ∨ (∃ name, a.BroadcastAt name) ∨
      a.IsReply ∧ Relay.relayToDhcpClient a.rounds a.cfg a.host (a.relay s) = .ok r' := by
  -- every way out that sends nothing leaves the list of datagrams empty
  have hsilent : ∀ {x : Relay}, x.sent = [] → (.ok x : Except Fault Relay) = .ok r' →
      r'.sent = [] := by
    intro x hx heq
    rw [← Except.ok.inj heq, hx]
  have hl' : Linked (a.relay s).state := hl
  have hsent : (a.relay s).sent = [] := rfl
  rw [a.run_eq] at hrun
  by_cases hport : a.dest = dhcpsPort ∨ a.dest = dhcpcPort
  · rw [if_pos hport] at hrun
    by_cases hon : a.cfg.enabled .dhcpRelay
    · rw [if_neg (not_not_intro hon)] at hrun
      by_cases hrequest : dhcpOp a.pkt = bootrequest
      · rw [if_pos hrequest] at hrun
        cases hnode : Relay.requestNode a.host (a.relay s) with
        | none =>
          obtain ⟨pkt, hrun'⟩ := @Relay.relayToDhcpServer_none a.host (a.relay s) a.cfg hnode
          rw [hrun'] at hrun
          exact Or.inl (hsilent (x := { a.relay s with pkt }) hsent hrun)
        | some found =>
          -- the request has found its node, so all that is asked of it was checked
          obtain ⟨hindex, hname, hip, hhops, -⟩ := Relay.requestNode_eq_some hnode
          exact Or.inr (Or.inl ⟨found.1, ⟨hheaders, hindex, hname, hip⟩, ⟨hport, hon⟩, hrequest,
            hhops⟩)
      · rw [if_neg hrequest, ← ite_and] at hrun
        by_cases hreply : dhcpOp a.pkt = bootreply ∧ ipAt a.pkt ipDstOff ≠ ipAddressBcast
        · rw [if_pos hreply] at hrun
          exact Or.inr (Or.inr (Or.inr ⟨⟨⟨hport, hon⟩, hreply⟩, hrun⟩))
        · rw [if_neg hreply] at hrun
          exact Or.inl (hsilent hsent hrun)
    · rw [if_pos hon] at hrun
      exact Or.inl (hsilent hsent hrun)
  · rw [if_neg hport] at hrun
    by_cases hon : a.cfg.enabled .udpBcastForwarder
    · rw [if_neg (not_not_intro hon), Relay.forwardPacket_eq a.dest hl'] at hrun
      cases hnode : Relay.forwardNode a.host (a.relay s) with
      | none =>
        unfold Relay.forwarded at hrun
        rw [hnode] at hrun
        exact Or.inl (hsilent hsent hrun)
      | some found =>
        obtain ⟨hindex, hname, hip⟩ := forwardNode_cameIn hnode
        rw [not_or] at hport
        exact Or.inr (Or.inr (Or.inl ⟨found.1, ⟨hheaders, hindex, hname, hip⟩, hport.1, hport.2,
          hon⟩))
    · rw [if_pos hon] at hrun
      exact Or.inl (hsilent hsent hrun)

end Arrival

/-! ## Runs -/

section runs

variable {hashInt : UInt32 → UInt32 → UInt32} {tests : AddressTests} {defaultVrfName : CString}
  {ports : Finset CString} {s : System} {t : ServerTables} {a : Arrival} {name : CString}

/-- The tables as the daemon has seen them: as they were when it last looked, or as they are when it
has nothing to do. -/
def System.Seen (s : System) (t : ServerTables) : Prop :=
  t = s.polled ∨ (t = s.tables ∧ s.seqno < s.polledAt + 2 ^ 32 ∧
    ∀ d, s.daemon = .ok d → UInt32.ofNat s.seqno = d.idlSeqno)

/-- The cache of a run follows the tables the daemon has seen. -/
theorem synced_of_seen (hfew : ports.card ≤ 65535)
    (h : Runs hashInt tests defaultVrfName (gentleRules defaultVrfName ports) s)
    (hseen : s.Seen t) : ∃ d, s.daemon = .ok d ∧ Linked d.state ∧ Synced d.state t := by
  obtain ⟨old, cur, hinv⟩ := inv_of_gentle hfew h
  obtain ⟨d, hd, hs, -, -⟩ := hinv.daemon
  obtain ⟨d', hd', hpolled, htables⟩ := hinv.synced
  obtain rfl : d = d' := Except.ok.inj (hd.symm.trans hd')
  refine ⟨d, hd, hs.linked, ?_⟩
  rcases hseen with rfl | ⟨rfl, hbound, hquiet⟩
  · exact hpolled
  · exact htables (hquiet d hd) hbound

/-- A DHCPDISCOVER that comes in on interface `1`. -/
def helperRequest : Arrival where
  rounds := 0
  cfg := ⟨0x0002, .replace, .mac⟩
  host := helperHost
  size := 272
  pkt := store (store (requestPacket [0, 0, 0, 0] [53, 1, 1, 255]) ipLenOff (htonsBytes 272)) 20
    (htonsBytes 68 ++ htonsBytes 67)
  pktInfo := ⟨3, 0, 0xffffffff⟩

theorem helperRequest_requestAt : helperRequest.RequestAt ['1'] where
  cameIn := ⟨by decide +kernel, by decide, rfl, by decide +kernel⟩
  forRelay := ⟨Or.inl (by decide +kernel), by decide +kernel⟩
  op := by decide +kernel
  hops := by decide +kernel

/-- A DNS query that comes in on interface `1`. -/
def helperQuery : Arrival where
  rounds := 0
  cfg := ⟨0x0001, .replace, .mac⟩
  host := helperHost
  size := 40
  pkt := store (store (fun _ => 0) 0 [0x45]) 16 ([255, 255, 255, 255] ++ [4, 0, 0, 53])
  pktInfo := ⟨3, 0, 0xffffffff⟩

theorem helperQuery_broadcastAt : helperQuery.BroadcastAt ['1'] where
  cameIn := ⟨by decide +kernel, by decide, rfl, by decide +kernel⟩
  notDhcps := by decide +kernel
  notDhcpc := by decide +kernel
  enabled := by decide +kernel

/-- The one helper address of the interface. -/
theorem serves_helperTables {k : ServerKey} (hport : k.2 = dhcpsPort) :
    helperTables.Serves ['1'] k ↔ k = (0x0200000a, dhcpsPort) := by
  have haddresses : validAddresses ["10.0.0.2".toList] = [0x0200000a] := by decide
  constructor
  · rintro (⟨-, row, hrow, -, hid⟩ | ⟨hne, -⟩)
    · obtain rfl := List.mem_singleton.mp hrow
      rw [haddresses] at hid
      exact Prod.ext (List.mem_singleton.mp hid) hport
    · exact absurd hport hne
  · rintro rfl
    refine Or.inl ⟨rfl, _, List.mem_singleton_self _, rfl, ?_⟩
    rw [haddresses]
    exact List.mem_singleton_self _

theorem covers_helperTables {ks : List ServerKey} (h : Covers helperTables ['1'] dhcpsPort ks) :
    ks = [(0x0200000a, dhcpsPort)] := by
  refine List.perm_singleton.mp ((List.perm_ext_iff_of_nodup h.nodup
    (List.nodup_singleton _)).mpr fun k => ?_)
  rw [h.mem, List.mem_singleton]
  constructor
  · rintro ⟨hport, hserves⟩
    exact (serves_helperTables hport).mp hserves
  · rintro rfl
    exact ⟨rfl, (serves_helperTables rfl).mpr rfl⟩

/-- In every run, a datagram for the forwarder goes to each server that the tables have for the
interface it came in on and its port, once. -/
theorem broadcasts_follow_tables (hfew : ports.card ≤ 65535)
    (h : Runs hashInt tests defaultVrfName (gentleRules defaultVrfName ports) s)
    (hseen : s.Seen t) (hat : a.BroadcastAt name) :
    ∃ d r' ks, s.daemon = .ok d ∧ a.run d.state = .ok r' ∧ Covers t name a.dest ks ∧
      List.Forall₂ (fun k d => ForwardedTo a.pkt a.size a.dest k.1 d) ks r'.sent := by
  obtain ⟨d, hd, hl, hsynced⟩ := synced_of_seen hfew h hseen
  obtain ⟨r', ks, hrun, hcovers, hsends⟩ := hat.follows hl hsynced
  exact ⟨d, r', ks, hd, hrun, hcovers, hsends⟩

/-- No server is configured for the port of the query. -/
theorem broadcasts_follow_tables_helper : ∃ d r', helperSystem.daemon = .ok d ∧
    helperQuery.run d.state = .ok r' ∧ r'.sent = [] := by
  obtain ⟨d, r', ks, hd, hrun, hcovers, hsends⟩ := broadcasts_follow_tables (by decide)
    helperSystem_gentle (Or.inl rfl) helperQuery_broadcastAt
  refine ⟨d, r', hd, hrun, ?_⟩
  have hks : ks = [] := by
    refine List.eq_nil_iff_forall_not_mem.mpr fun k hk => ?_
    obtain ⟨hport, ⟨hdhcps, -⟩ | ⟨-, row, hrow, -⟩⟩ := (hcovers.mem k).mp hk
    · exact helperQuery_broadcastAt.notDhcps (hport.symm.trans hdhcps)
    · exact absurd hrow List.not_mem_nil
  rw [hks, List.forall₂_nil_left_iff] at hsends
  exact hsends

end runs

end Udpfwd
end IpApps
