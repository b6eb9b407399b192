import IpApps.Udpfwd.LowestAddress
import IpApps.Udpfwd.RelayChain
import IpApps.Udpfwd.ReplyDestination

/-!
# The way back of a reply

A relay finds the interface of a reply by the agent address that it has put into the request itself.
On a host whose lists of interfaces and addresses are in order, that is the interface on which the
request came in.
-/

namespace IpApps
namespace Udpfwd

open Memory ExceptLoops Vty

/-! ## Interfaces and their addresses -/

/-- The lists of a host are in order: interfaces have one name each, of less than `IF_NAMESIZE`
characters, that leads to their index, and no address belongs to two of them. -/
structure Host.Consistent (host : Host) : Prop where
  named : ∃ ifNi, host.ifNameindex = some ifNi ∧
    (∀ i name, host.ifIndextoname i = some name → (i, name) ∈ ifNi) ∧
    (∀ e ∈ ifNi, e.2.length < ifNamesize) ∧ (ifNi.map Prod.snd).Nodup
  unshared : ∀ ifaddr, host.getifaddrs = some ifaddr → ∀ ifa ∈ ifaddr, ∀ ifa' ∈ ifaddr, ∀ ip,
    ifa.ifaAddr = .inet ip → ifa'.ifaAddr = .inet ip → ifa.ifaName = ifa'.ifaName

section interfaces

variable {host : Host} {name : CString} {ip : IpAddress} {i : UInt32}

/-- The index that is found for an address of an interface is that of the interface. -/
theorem getIfIndexfromIpAddress_eq (h : host.Consistent)
    (hip : host.ipExistsOnInterface name ip = true) (hname : host.ifIndextoname i = some name) :
    host.getIfIndexfromIpAddress ip = i := by
  obtain ⟨ifNi, hifNi, hlisted, hshort, hnodup⟩ := h.named
  have hmem := hlisted i name hname
  let intf : IfName := ⟨name, hshort _ hmem⟩
  unfold Host.ipExistsOnInterface at hip
  unfold Host.getIfIndexfromIpAddress
  cases hifaddr : host.getifaddrs with
  | none =>
    rw [hifaddr] at hip
    cases hip
  | some ifaddr =>
    rw [hifaddr] at hip
    rw [hifNi]
    dsimp only at hip ⊢
    have hhas : HasAddress ifaddr intf ip :=
      mem_ipsOnInterface_ifName.mp (List.contains_iff_mem.mp hip)
    -- the name leads to the index
    have hfind : ∀ ifaName, ifaName = name →
        (ifNi.find? fun e => sameIfName e.2 ifaName).map (·.1) = some i := by
      rintro ifaName rfl
      have hexists : ∃ e ∈ ifNi, sameIfName e.2 ifaName = true :=
        ⟨_, hmem, (sameIfName_ifName intf ifaName).mpr rfl⟩
      obtain ⟨e, he⟩ := Option.isSome_iff_exists.mp (List.find?_isSome.mpr hexists)
      have hsame := List.find?_some he
      have heq :=
        (sameIfName_ifName ⟨e.2, hshort e (List.mem_of_find?_eq_some he)⟩ ifaName).mp hsame
      rw [he, Option.map_some]
      exact congrArg (fun e => some e.1)
        (List.inj_on_of_nodup_map hnodup (List.mem_of_find?_eq_some he) hmem heq.symm)
    have hindex : ∀ ifa ∈ ifaddr, ∀ j, Host.ifIndexOf ifNi ip ifa = some j → j = i := by
      intro ifa hifa j hj
      unfold Host.ifIndexOf at hj
      cases haddr : ifa.ifaAddr with
      | packet mac =>
        rw [haddr] at hj
        cases hj
      | other =>
        rw [haddr] at hj
        cases hj
      | inet addr =>
        rw [haddr] at hj
        dsimp only at hj
        split at hj
        · rename_i heq
          rw [hfind _ (h.unshared ifaddr hifaddr ifa hifa _ hhas ip (by rw [haddr, heq]) rfl)] at hj
          exact (Option.some.inj hj).symm
        · cases hj
    have hfound : Host.ifIndexOf ifNi ip ⟨intf.name, .inet ip⟩ = some i := by
      unfold Host.ifIndexOf
      dsimp only
      rw [if_pos rfl]
      exact hfind _ rfl
    cases hsome : ifaddr.findSome? (Host.ifIndexOf ifNi ip) with
    | none =>
      have hnone := List.findSome?_eq_none_iff.mp hsome _ hhas
      rw [hfound] at hnone
      cases hnone
    | some j =>
      obtain ⟨ifa, hifa, hj⟩ := List.exists_of_findSome?_eq_some hsome
      exact hindex ifa hifa j hj

end interfaces

/-! ## The reply to a request that was relayed -/

/-- Two looks at one host: its lists are the same, whatever else has happened. -/
structure SameLists (host host' : Host) : Prop where
  getifaddrs : host'.getifaddrs = host.getifaddrs
  ifNameindex : host'.ifNameindex = host.ifNameindex
  ifIndextoname : host'.ifIndextoname = host.ifIndextoname

/-- What option 82 processing makes of a reply for an interface. -/
def Arrival.replyOutcome (b : Arrival) (ifIndex : UInt32) (name : CString) : Option82Outcome :=
  processDhcpRelayOption82Message b.cfg b.host (Relay.addToByte b.pkt ipTtlOff (-1)) ⟨0, 0⟩ ifIndex
    name 0

/-- A reply that option 82 processing drops is sent to nobody, any other one to the client port of
its destination, if it has one, on the interface with the index. -/
structure Arrival.ReturnsOn (b : Arrival) (ifIndex : UInt32) (name : CString) (s : State)
    (r' : Relay) : Prop where
  dropped : (b.replyOutcome ifIndex name).result = .dropped → r'.sent = []
  relayed : (b.replyOutcome ifIndex name).result ≠ .dropped → ∃ option,
    dhcpPickupOpt b.rounds (b.replyOutcome ifIndex name).pkt (dhcp b.pkt)
        (dhcpPktlen (b.replyOutcome ifIndex name).pkt) dhcpMsgtype = some option ∧
      SendsTo ifIndex
        (Relay.replyDest (b.replyOutcome ifIndex name).pkt (dhcp b.pkt) option).address (b.relay s)
        r'

section reply

variable {stop : RelayStop} {b : Arrival} {s : State} {r' : Relay}

theorem Arrival.IsReply.run_eq (h : b.IsReply) (s : State) :
    b.run s = Relay.relayToDhcpClient b.rounds b.cfg b.host (b.relay s) := by
  have hop : dhcpOp b.pkt ≠ bootrequest := by
    rw [h.2.1]
    decide
  rw [b.run_eq, if_pos h.1.1, if_neg (not_not_intro h.1.2), if_neg hop, if_pos h.2.1, if_pos h.2.2]

/-- The agent address is one of the interface the request came in on. -/
theorem RelayStop.exists_address (h : stop.arrival.RequestAt stop.ifName) :
    stop.arrival.host.ipExistsOnInterface stop.ifName stop.address = true := by
  unfold RelayStop.address stampAddress
  split
  · rename_i hgateway
    exact hgateway.2
  · exact ipExistsOnInterface_getLowestIpOnInterface h.cameIn.address

/-- The node of a reply to a request is that of the interface the request came in on. -/
theorem replyNode_of_request (hconsistent : stop.arrival.host.Consistent)
    (hlists : SameLists stop.arrival.host b.host) (hat : stop.arrival.RequestAt stop.ifName)
    (hecho : giaddr b.pkt = stop.address) :
    replyNode b.host (b.relay s) = (s.shashFind stop.ifName).map fun p =>
      (stop.arrival.pktInfo.ipiIfindex, stop.ifName, p) := by
  have hindex : b.host.getIfIndexfromIpAddress (giaddr (b.relay s).pkt)
      = stop.arrival.pktInfo.ipiIfindex := by
    have hfound := getIfIndexfromIpAddress_eq hconsistent (RelayStop.exists_address hat)
      hat.cameIn.ifName
    rw [← hfound, ← hecho]
    unfold Host.getIfIndexfromIpAddress
    rw [hlists.getifaddrs, hlists.ifNameindex]
    rfl
  unfold replyNode
  rw [hindex]
  dsimp only
  rw [if_neg hat.cameIn.index, hlists.ifIndextoname, hat.cameIn.ifName]
  rfl

/-- A reply that returns at its node. -/
theorem Arrival.IsReply.returnsOn (h : b.IsReply) (hl : Linked s) {ifIndex : UInt32}
    {name : CString} {p : NodePtr} (hnode : replyNode b.host (b.relay s) = some (ifIndex, name, p))
    (hrun : b.run s = .ok r') : b.ReturnsOn ifIndex name s r' := by
  have hl' : Linked (b.relay s).state := hl
  have houtcome : Udpfwd.replyOutcome b.cfg b.host ifIndex name (b.relay s)
      = b.replyOutcome ifIndex name := rfl
  rw [h.run_eq] at hrun
  constructor
  · intro hdropped
    obtain ⟨-, -, -, hfind⟩ := replyNode_eq_some hnode
    obtain ⟨n, hp, -⟩ := (hl.shashFind_eq_some_iff name p).mp hfind
    have heq := relayToDhcpClient_eq b.rounds b.cfg hnode hp
    dsimp only at heq
    rw [houtcome, hdropped] at heq
    rw [← Except.ok.inj (heq.symm.trans hrun)]
    rfl
  · intro hrelayed
    obtain ⟨state, n, hp, hclient⟩ := relayToDhcpClient_relayed hnode hl' hrelayed
    rw [hclient, houtcome] at hrun
    generalize (b.replyOutcome ifIndex name).pkt = pkt at *
    cases hpick : dhcpPickupOpt b.rounds pkt (dhcp b.pkt) (dhcpPktlen pkt) dhcpMsgtype with
    | none =>
      -- the search for the message type has not ended
      have hfault : Relay.relayToClient b.rounds b.host ifIndex name p (dhcp b.pkt)
          { b.relay s with pkt, state } = .error .unfinished := by
        unfold Relay.relayToClient
        rw [hpick]
      exact absurd (hfault.symm.trans hrun) (by simp)
    | some option =>
      refine ⟨option, rfl, ?_⟩
      obtain ⟨hends, hfails⟩ := @relayToClient_sends b.host p { b.relay s with pkt, state } n
        ifIndex name b.rounds (dhcp b.pkt) option hp hpick
      by_cases hroom : ∀ ip, Relay.replyDest pkt (dhcp b.pkt) option = .unicast ip →
          (pkt (dhcp b.pkt + hlenOff)).toNat ≤ arpReqRoom
      · obtain ⟨r₁, hrun₁, hsends, -⟩ := hends hroom
        obtain rfl := Except.ok.inj (hrun₁.symm.trans hrun)
        exact hsends
      · obtain ⟨fault, herror⟩ := hfails hroom
        exact absurd (herror.symm.trans hrun) (by simp)

/-- An interface with a server has a node. -/
theorem Synced.shashFind_of_serves {t : ServerTables} (h : Synced s t) (hl : Linked s)
    {name : CString} {k : ServerKey} (hserves : t.Serves name k) :
    ∃ p, s.shashFind name = some p := by
  cases hfind : s.shashFind name with
  | some p => exact ⟨p, rfl⟩
  | none =>
    have hmem := (h.servers name k).mpr hserves
    rw [serversOf_eq_zero ((interface_eq_none_iff hl).mpr hfind)] at hmem
    exact absurd hmem (Multiset.notMem_zero k)

end reply

/-! ## Runs -/

section runs

variable {hashInt : UInt32 → UInt32 → UInt32} {tests : AddressTests} {defaultVrfName : CString}
  {ports : Finset CString} {s : System} {t : ServerTables} {stop : RelayStop} {pkt : Packet}
  {b : Arrival}

/-- The relay is the first one for the request of a client, and `pkt` is what the server gets. The
packet `b` is a reply with the agent address of that. -/
structure Answers (stop : RelayStop) (pkt : Packet) (b : Arrival) : Prop where
  op : dhcpOp stop.arrival.pkt = bootrequest
  first : giaddr stop.arrival.pkt = 0
  passes : stop.Passes pkt
  lists : SameLists stop.arrival.host b.host
  reply : b.IsReply
  echo : giaddr b.pkt = giaddr pkt

/-- In every run, whatever has happened since the request was relayed: while the tables still have a
server for the interface on which the request came in, the reply leaves on this interface. -/
theorem reply_follows_request (hfew : ports.card ≤ 65535)
    (h : Runs hashInt tests defaultVrfName (gentleRules defaultVrfName ports) s)
    (hseen : s.Seen t) (hconsistent : stop.arrival.host.Consistent) (hanswers : Answers stop pkt b)
    {k : ServerKey} (hserves : t.Serves stop.ifName k) (hends : s.Ends b) :
    ∃ d r', s.daemon = .ok d ∧ b.run d.state = .ok r' ∧
      b.ReturnsOn stop.arrival.pktInfo.ipiIfindex stop.ifName d.state r' := by
  obtain ⟨d, hd, hl, hsynced⟩ := synced_of_seen hfew h hseen
  obtain ⟨r', hrun, -⟩ := b.run_of_ends hl (hends d hd)
  refine ⟨d, r', hd, hrun, ?_⟩
  have hat := (hanswers.passes.request hanswers.op).1
  have hecho : giaddr b.pkt = stop.address := by
    rw [hanswers.echo, hanswers.passes.giaddr hanswers.op, if_pos hanswers.first]
  obtain ⟨p, hfind⟩ := hsynced.shashFind_of_serves hl hserves
  have hnode := @replyNode_of_request stop b d.state hconsistent hanswers.lists hat hecho
  rw [hfind, Option.map_some] at hnode
  exact hanswers.reply.returnsOn hl hnode hrun

/-- The host has interface `1` only. -/
theorem helperHost_consistent : helperHost.Consistent where
  named := by
    refine ⟨[(3, ['1'])], rfl, fun i name hname => ?_, by decide, by decide⟩
    have hname : (if i = 3 then some ['1'] else none) = some name := hname
    rw [Option.ite_none_right_eq_some] at hname
    rw [hname.1, ← Option.some.inj hname.2]
    exact List.mem_singleton_self _
  unshared := by
    rintro ifaddr hifaddr ifa hifa ifa' hifa' ip - -
    obtain rfl := Option.some.inj hifaddr
    rw [List.mem_singleton.mp hifa, List.mem_singleton.mp hifa']

/-- A DHCPACK for 10.0.0.7, which is the answer to the request that was relayed. -/
def helperReply : Arrival where
  rounds := 1
  cfg := ⟨0x0002, .replace, .mac⟩
  host := helperHost
  size := 272
  pkt := store (store (store (requestPacket [10, 0, 0, 1] [dhcpMsgtype, 1, 5, endTag]) 16
    ([10, 0, 0, 1] ++ [0, 67, 0, 67])) 28 [bootreply, 1, 6]) 44 [10, 0, 0, 7]
  pktInfo := ⟨4, 0x0100000a, 0x0100000a⟩

theorem helperReply_isReply : helperReply.IsReply :=
  ⟨⟨Or.inl (by decide +kernel), by decide +kernel⟩, by decide +kernel, by decide +kernel⟩

theorem helperReply_ends (s : System) : s.Ends helperReply := by
  intro d _ _ ifIndex ifName p _
  refine Or.inr ⟨some 268, ?_, fun sinAddr _ => ?_⟩
  · have hpick : dhcpPickupOpt 1 (Relay.addToByte helperReply.pkt ipTtlOff (-1))
        (dhcp helperReply.pkt)
        (dhcpPktlen (Relay.addToByte helperReply.pkt ipTtlOff (-1))) dhcpMsgtype
          = some (some 268) := by
      decide +kernel
    exact hpick
  · have hhlen : (Relay.addToByte helperReply.pkt ipTtlOff (-1)
        (dhcp helperReply.pkt + hlenOff)).toNat ≤ arpReqRoom := by decide +kernel
    exact hhlen

/-- The answer to the request that the helper address was for leaves on interface `1`. -/
theorem reply_follows_request_helper : ∃ d r', helperSystem.daemon = .ok d ∧
    helperReply.run d.state = .ok r' ∧ helperReply.ReturnsOn 3 ['1'] d.state r' := by
  obtain ⟨pkt, htravels⟩ := helperStop_travels
  obtain hpasses : helperStop.Passes pkt := by
    cases htravels with
    | relayed _ _ hpasses => exact hpasses
  have hop : dhcpOp helperStop.arrival.pkt = bootrequest := helperRequest_requestAt.op
  have hfirst : giaddr helperStop.arrival.pkt = 0 := by decide +kernel
  have hgiaddr := hpasses.giaddr hop
  rw [if_pos hfirst] at hgiaddr
  have haddress : giaddr helperReply.pkt = helperStop.address := by decide +kernel
  have hserves : helperTables.Serves helperStop.ifName (0x0200000a, dhcpsPort) :=
    (serves_helperTables rfl).mpr rfl
  have hanswers : Answers helperStop pkt helperReply :=
    ⟨hop, hfirst, hpasses, ⟨rfl, rfl, rfl⟩, helperReply_isReply, haddress.trans hgiaddr.symm⟩
  exact reply_follows_request (by decide) helperSystem_gentle (Or.inl rfl) helperHost_consistent
    hanswers hserves (helperReply_ends _)

end runs

end Udpfwd
end IpApps
