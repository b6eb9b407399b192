import IpApps.Udpfwd.PacketRuns

/-!
# A request on its way through several relays

A relay may send a request to another one. Whatever the relays are configured for, and whether or
not they process option 82, the message that comes out of the last one is that of the client but for
the hop count, the agent address and the options. The agent address is that of the first relay. A
request that is counted is relayed seventeen times at most.
-/

namespace IpApps
namespace Udpfwd

open Memory Endian

/-! ## The fixed fields of a message -/

section message

variable {pkt pkt' : Packet} {a : ℤ}

theorem dhcp_ge_of_headers (h : 5 ≤ ipHl pkt) : 28 ≤ dhcp pkt := by
  unfold dhcp udph udphdrLength
  omega

/-- The lengths of the headers are updated, and what follows the options. -/
theorem updateLengths_message {sp : ℤ} (hdhcp : 28 ≤ dhcp pkt) (ha : dhcp pkt ≤ a) (hsp : a < sp) :
    updateLengths (dhcp pkt) pkt' sp a = pkt' a := by
  unfold updateLengths
  rw [store_of_ge, store_of_ge, store_of_ge, store_of_ge]
  · split
    · exact store_of_lt _ hsp _
    · rfl
  · simp only [uhUlenOff, udphdrLength, length_htonsBytes]
    omega
  · simp only [uhSumOff, udphdrLength, List.length_cons, List.length_nil]
    omega
  · simp only [ipLenOff, length_htonsBytes]
    omega
  · simp only [ipSumOff, List.length_cons, List.length_nil]
    omega

/-- Option 82 processing leaves the fields in front of the options alone. -/
theorem process_message (c : Option82Call) (hdhcp : 28 ≤ dhcp pkt) (ha : dhcp pkt ≤ a)
    (hlt : a < dhcp pkt + optionsOff) : (c.process pkt).pkt a = pkt a := by
  unfold optionsOff at hlt
  by_cases hworks : Works c pkt
  · rw [process_of_works hworks]
    cases hscan : scanOptions c.cfg c.host c.ifName pkt c.pktInfo with
    | ret result s =>
      exact (start_behind pkt c.pktInfo).loop_ret (by unfold opOff optionsStart; omega) hscan a
        (by unfold optionsStart; omega)
    | next s =>
      obtain ⟨hfront, happend, hsp, -⟩ := scanOptions_behind hscan
      unfold optionsStart at hfront happend hsp
      have hcell : s.pkt a = pkt a := hfront a (by omega)
      have hptr : s.appendPtr - 1 ≤ s.optionPtr := by
        unfold Scan.optionPtr
        split <;> omega
      simp only [finishOption82]
      split
      · exact hcell
      split
      · split <;> exact hcell
      show updateLengths (dhcp pkt) _ _ a = pkt a
      split
      · unfold addAgentOption
        split
        · rw [updateLengths_message hdhcp ha (by rw [writeAgentOption_stores]; dsimp only; omega),
            writeAgentOption_front _ _ (by omega), hcell]
        · exact (updateLengths_message hdhcp ha (by dsimp only; omega)).trans hcell
      · exact (updateLengths_message hdhcp ha (by dsimp only; omega)).trans hcell
  · rw [(process_of_not_works hworks).2]

/-- The agent address is stamped alike in packets with the same fields. -/
theorem stampGiaddr_congr {host : Host} {ifName : CString} {bootpGw interfaceIp : IpAddress}
    {dhcp : ℤ} (h : ∀ a, dhcp ≤ a → a < dhcp + optionsOff → pkt' a = pkt a) (ha : dhcp ≤ a)
    (hlt : a < dhcp + optionsOff) :
    Relay.stampGiaddr host ifName bootpGw interfaceIp dhcp pkt' a
      = Relay.stampGiaddr host ifName bootpGw interfaceIp dhcp pkt a := by
  have hgiaddr : ipAt pkt' (dhcp + giaddrOff) = ipAt pkt (dhcp + giaddrOff) := by
    refine ipAt_congr fun i hi => h _ ?_ ?_
    · unfold giaddrOff
      omega
    · unfold giaddrOff optionsOff
      omega
  unfold Relay.stampGiaddr
  rw [hgiaddr]
  split
  · unfold store
    rw [h a ha hlt]
  · exact h a ha hlt

/-- With option 82 or without, the fields of a request that is sent are the stamped ones. -/
theorem Arrival.requestSent_message {x : Arrival} {name : CString} (gateway : IpAddress)
    (hheaders : 5 ≤ ipHl x.pkt) (ha : dhcp x.pkt ≤ a) (hlt : a < dhcp x.pkt + optionsOff) :
    x.requestSent name gateway a = stampedRequest x.cfg x.host name gateway
      (x.host.getLowestIpOnInterface name) x.pkt a := by
  have hdhcp : dhcp (Relay.countHop x.cfg (Relay.correctPort x.pkt)) = dhcp x.pkt :=
    dhcp_congr ((countHop_kept x.cfg (Or.inl rfl)).trans correctPort_first)
  have hge := dhcp_ge_of_headers hheaders
  refine stampGiaddr_congr (fun b hb hblt => ?_) ha hlt
  refine process_message _ ?_ ?_ ?_
  · rw [hdhcp]
    exact hge
  · rw [hdhcp]
    exact hb
  · rw [hdhcp]
    exact hblt

end message

/-! ## A relay -/

/-- A packet holds the message of a datagram, of which the network has changed the headers at
most. -/
structure Delivers (d : Datagram) (pkt : Packet) : Prop where
  headers : 5 ≤ ipHl pkt
  whole : dhcp d.packet + optionsOff ≤ d.bytes.length
  message : ∀ i : ℕ, i < optionsOff → pkt (dhcp pkt + i) = d.packet (dhcp d.packet + i)

namespace Arrival

variable {x : Arrival} {name : CString} {s : State} {r' : Relay} {d : Datagram}

/-- A datagram of a request carries a copy with the gateway of the interface. -/
theorem RequestAt.copy_of_mem (h : x.RequestAt name) (hl : Linked s) (hrun : x.run s = .ok r')
    (hd : d ∈ r'.sent) :
    ∃ server, CarriesCopy (x.host.getLowestIpOnInterface name)
      (x.requestSent name (s.bootpGwOf name))
      (ntohs (x.requestSent name (s.bootpGwOf name)) ipLenOff) server d := by
  cases hfind : s.shashFind name with
  | none =>
    -- without a node nothing is sent
    have hnode : Relay.requestNode x.host (x.relay s) = none := by
      rw [h.requestNode_eq, hfind, Option.map_none]
    obtain ⟨pkt', hrun'⟩ := @Relay.relayToDhcpServer_none x.host (x.relay s) x.cfg hnode
    rw [h.run_eq, hrun'] at hrun
    rw [← Except.ok.inj hrun] at hd
    exact absurd hd List.not_mem_nil
  | some p =>
    obtain ⟨n, hp, hname⟩ := (hl.shashFind_eq_some_iff name p).mp hfind
    obtain ⟨r₁, hrun₁, hsends⟩ := h.sends hfind hl hp
    obtain rfl := Except.ok.inj (hrun₁.symm.trans hrun)
    have hgateway : n.bootpGw = s.bootpGwOf name := by
      rw [← hname]
      exact (bootpGwOf_eq hl hp).symm
    rw [hgateway] at hsends
    by_cases hdropped : (x.requestOutcome name (s.bootpGwOf name)).result = .dropped
    · rw [hsends.dropped hdropped] at hd
      exact absurd hd List.not_mem_nil
    · obtain ⟨k, -, hcopy⟩ := exists_server_of_mem (hsends.relayed hdropped) hd
      exact ⟨k.1, hcopy⟩

end Arrival

/-- What is delivered of a copy has the stamped fields. -/
theorem CarriesCopy.message {x : Arrival} {name : CString} {gateway server : IpAddress} {size : ℕ}
    {d : Datagram} {pkt : Packet}
    (h : CarriesCopy (x.host.getLowestIpOnInterface name) (x.requestSent name gateway) size server
      d)
    (hheaders : 5 ≤ ipHl x.pkt) (hd : Delivers d pkt) {i : ℕ} (hi : i < optionsOff) :
    pkt (dhcp pkt + i) = stampedRequest x.cfg x.host name gateway
      (x.host.getLowestIpOnInterface name) x.pkt (dhcp x.pkt + i) := by
  obtain ⟨pkt', hcopy, hbytes⟩ := h.copy
  have hge := dhcp_ge_of_headers hheaders
  have hudph := @Arrival.udph_requestSent x name gateway
  -- sending it to a server changes cells of the headers only
  have hkept : ∀ a, ¬HeaderCell (udph x.pkt) a → pkt' a = x.requestSent name gateway a := by
    intro a ha
    refine hcopy.kept a ?_
    rw [hudph]
    exact ha
  have hfirst : pkt' 0 = x.requestSent name gateway 0 := by
    refine hkept 0 ?_
    unfold dhcp udphdrLength at hge
    unfold HeaderCell ipSumOff ipDstOff uhDportOff uhUlenOff uhSumOff udphdrLength
    omega
  have hwhole := hd.whole
  have hpos := udph_nonneg d.packet
  have hdhcp : dhcp d.packet = dhcp x.pkt := by
    have hsent : dhcp (x.requestSent name gateway) = dhcp x.pkt := by
      unfold dhcp
      rw [hudph]
    rw [← hsent]
    refine dhcp_congr ((Datagram.cell hbytes (Int.le_refl 0) ?_).trans hfirst)
    unfold dhcp udphdrLength optionsOff at hwhole
    omega
  rw [hdhcp] at hwhole
  rw [hd.message i hi, hdhcp, Datagram.cell hbytes (by omega) (by omega), hkept]
  · exact x.requestSent_message gateway hheaders (by omega) (by omega)
  · unfold dhcp udphdrLength at hge ⊢
    unfold HeaderCell ipSumOff ipDstOff uhDportOff uhUlenOff uhSumOff udphdrLength
    omega

/-- A relay that a packet comes to. -/
structure RelayStop where
  arrival : Arrival
  state : State

namespace RelayStop

variable (stop : RelayStop)

/-- The relay counts the hop. -/
def counts : Bool := stop.arrival.cfg.enabled .dhcpRelayHopCountIncrement

/-- The interface the packet comes in on. -/
def ifName : CString := (stop.arrival.host.ifIndextoname stop.arrival.pktInfo.ipiIfindex).getD []

/-- The agent address of the relay. -/
def address : IpAddress :=
  stampAddress stop.arrival.host stop.ifName (stop.state.bootpGwOf stop.ifName)
    (stop.arrival.host.getLowestIpOnInterface stop.ifName)

/-- The relay, with its cache in order, sends a datagram for the packet, and `pkt` is what becomes
of it. -/
structure Passes (pkt : Packet) : Prop where
  linked : Linked stop.state
  headers : 5 ≤ ipHl stop.arrival.pkt
  dest : stop.arrival.dest = dhcpsPort ∨ stop.arrival.dest = dhcpcPort
  sends : ∃ r' d, stop.arrival.run stop.state = .ok r' ∧ d ∈ r'.sent ∧ Delivers d pkt

variable {stop} {pkt : Packet}

/-- The datagrams for a request carry the stamped fields. -/
theorem Passes.request (h : stop.Passes pkt) (hop : dhcpOp stop.arrival.pkt = bootrequest) :
    stop.arrival.RequestAt stop.ifName ∧ ∀ i : ℕ, i < optionsOff →
      pkt (dhcp pkt + i) = stampedRequest stop.arrival.cfg stop.arrival.host stop.ifName
        (stop.state.bootpGwOf stop.ifName) (stop.arrival.host.getLowestIpOnInterface stop.ifName)
        stop.arrival.pkt (dhcp stop.arrival.pkt + i) := by
  obtain ⟨r', d, hrun, hd, hdelivers⟩ := h.sends
  rcases stop.arrival.kind_of_run h.linked h.headers hrun with
    hsilent | ⟨name, hat⟩ | ⟨name, hat⟩ | ⟨hreply, -⟩
  · rw [hsilent] at hd
    exact absurd hd List.not_mem_nil
  · have hname : stop.ifName = name := by
      unfold ifName
      rw [hat.cameIn.ifName, Option.getD_some]
    obtain ⟨server, hcopy⟩ := hat.copy_of_mem h.linked hrun hd
    rw [hname]
    exact ⟨hat, fun i hi => hcopy.message h.headers hdelivers hi⟩
  · exact absurd h.dest (not_or_intro hat.notDhcps hat.notDhcpc)
  · have hreply := hreply.2.1
    rw [hop] at hreply
    exact absurd hreply (by decide)

/-- The fields that a relay has no business with stay. -/
theorem Passes.other (h : stop.Passes pkt) (hop : dhcpOp stop.arrival.pkt = bootrequest) {i : ℕ}
    (hi : i < optionsOff) (hhops : (i : ℤ) ≠ hopsOff)
    (hgiaddr : i < giaddrOff ∨ giaddrOff + 4 ≤ i) :
    pkt (dhcp pkt + i) = stop.arrival.pkt (dhcp stop.arrival.pkt + i) := by
  have hge := dhcp_ge_of_headers h.headers
  rw [(h.request hop).2 i hi, stampedRequest_outside]
  unfold dhcp udphdrLength at hge ⊢
  unfold StampedCell ipTtlOff udphdrLength uhDportOff
  omega

theorem Passes.op (h : stop.Passes pkt) (hop : dhcpOp stop.arrival.pkt = bootrequest) :
    dhcpOp pkt = bootrequest := by
  have hfirst := h.other hop (i := 0) (by decide) (by decide) (Or.inl (by decide))
  exact hfirst.trans hop

/-- A request is relayed with at most sixteen hops. -/
theorem Passes.hops (h : stop.Passes pkt) (hop : dhcpOp stop.arrival.pkt = bootrequest) :
    (stop.arrival.pkt (dhcp stop.arrival.pkt + hopsOff)).toNat ≤ 16 ∧
      (pkt (dhcp pkt + hopsOff)).toNat
        = (stop.arrival.pkt (dhcp stop.arrival.pkt + hopsOff)).toNat
          + if stop.counts then 1 else 0 := by
  obtain ⟨hat, hmessage⟩ := h.request hop
  have hle := UInt8.not_lt.mp hat.hops
  have hle : (stop.arrival.pkt (dhcp stop.arrival.pkt + hopsOff)).toNat ≤ 16 :=
    UInt8.le_iff_toNat_le.mp hle
  have hge := dhcp_ge_of_headers h.headers
  refine ⟨hle, ?_⟩
  have hcell := hmessage 3 (by decide)
  have hcell : pkt (dhcp pkt + hopsOff) = _ := hcell.trans
    (stampedRequest_hops (by unfold dhcp udphdrLength at hge; omega))
  rw [hcell, UInt8.toNat_add]
  show (_ + (if stop.counts then (1 : UInt8) else 0).toNat) % 2 ^ 8 = _
  split
  · rw [show (1 : UInt8).toNat = 1 from rfl]
    omega
  · rw [show (0 : UInt8).toNat = 0 from rfl]
    omega

/-- The address of a relay is one of its own. -/
theorem address_ne_zero (h : stop.arrival.RequestAt stop.ifName) : stop.address ≠ 0 := by
  unfold address stampAddress
  split
  · rename_i hgateway
    exact hgateway.1
  · exact h.cameIn.address

/-- A request without an agent address gets that of the relay. -/
theorem Passes.giaddr (h : stop.Passes pkt) (hop : dhcpOp stop.arrival.pkt = bootrequest) :
    giaddr pkt = if Udpfwd.giaddr stop.arrival.pkt = 0 then stop.address
      else Udpfwd.giaddr stop.arrival.pkt := by
  have hge := dhcp_ge_of_headers h.headers
  have hslice : slice pkt (dhcp pkt + giaddrOff) 4
      = slice (stampedRequest stop.arrival.cfg stop.arrival.host stop.ifName
        (stop.state.bootpGwOf stop.ifName) (stop.arrival.host.getLowestIpOnInterface stop.ifName)
        stop.arrival.pkt) (dhcp stop.arrival.pkt + giaddrOff) 4 := by
    apply slice_congr
    intro i hi
    have hcell := (h.request hop).2 (24 + i) (by unfold optionsOff; omega)
    rw [Nat.cast_add, ← Int.add_assoc, ← Int.add_assoc] at hcell
    exact hcell
  rw [stampedRequest_giaddr (by unfold dhcp udphdrLength at hge; omega)] at hslice
  unfold Udpfwd.giaddr ipAt at *
  rw [hslice]
  split
  · exact ofNat_leVal_ipBytes _
  · rfl

end RelayStop

/-! ## The way of a request -/

/-- The packets that a request of a client becomes on its way through relays, the last one first. -/
inductive Travels (client : Packet) : List RelayStop → Packet → Prop
  | sent : Travels client [] client
  | relayed {stops : List RelayStop} (stop : RelayStop) {pkt : Packet}
      (h : Travels client stops stop.arrival.pkt) (hpasses : stop.Passes pkt) :
      Travels client (stop :: stops) pkt

section travels

variable {client pkt : Packet} {stops : List RelayStop}

theorem Travels.op (h : Travels client stops pkt) (hop : dhcpOp client = bootrequest) :
    dhcpOp pkt = bootrequest := by
  induction h with
  | sent => exact hop
  | relayed stop _ hpasses ih => exact hpasses.op ih

/-- Every relay that counts adds a hop, and there are seventeen at most: a request does not go
round forever among relays that count. -/
theorem hops_of_travels (hop : dhcpOp client = bootrequest) (h : Travels client stops pkt) :
    (pkt (dhcp pkt + hopsOff)).toNat
        = (client (dhcp client + hopsOff)).toNat + stops.countP RelayStop.counts ∧
      (0 < stops.countP RelayStop.counts →
        (client (dhcp client + hopsOff)).toNat + stops.countP RelayStop.counts ≤ 17) := by
  induction h with
  | sent => exact ⟨rfl, fun hpos => absurd hpos (Nat.lt_irrefl 0)⟩
  | @relayed stops stop pkt h hpasses ih =>
    obtain ⟨hle, hhops⟩ := hpasses.hops (h.op hop)
    rw [List.countP_cons, hhops]
    constructor
    · rw [ih.1, Nat.add_assoc]
    · -- the last relay that counted saw sixteen hops at most
      intro _
      split <;> omega

/-- A relay that counts hops, with the helper of interface `1`. -/
def helperStop : RelayStop where
  arrival := { helperRequest with cfg := ⟨0x0006, .replace, .mac⟩ }
  state := helperCache.state

theorem helperStop_travels :
    ∃ pkt, Travels helperRequest.pkt [helperStop] pkt := by
  have hsent : (helperStop.arrival.run helperStop.state).toOption.map (fun r =>
      r.sent.map fun d => (d.bytes.length, d.packet 0)) = some [(272, 0x45)] := by decide +kernel
  rw [Option.map_eq_some_iff] at hsent
  obtain ⟨r', hrun, hdatagrams⟩ := hsent
  have hrun : helperStop.arrival.run helperStop.state = .ok r' := by
    cases hcase : helperStop.arrival.run helperStop.state with
    | error fault =>
      rw [hcase] at hrun
      cases hrun
    | ok r =>
      rw [hcase] at hrun
      rw [Option.some.inj hrun]
  obtain ⟨d, hd⟩ := List.exists_mem_of_length_pos (l := r'.sent) (by
    have hlength := congrArg List.length hdatagrams
    rw [List.length_map] at hlength
    rw [hlength]
    exact Nat.one_pos)
  have hcells := List.mem_map_of_mem (f := fun d => (d.bytes.length, d.packet 0)) hd
  rw [hdatagrams, List.mem_singleton, Prod.mk.injEq] at hcells
  have hheaders : ipHl d.packet = 5 := by
    unfold ipHl
    rw [hcells.2]
    decide
  refine ⟨d.packet, .relayed helperStop .sent
    ⟨helperCache_linked, by decide +kernel, Or.inl (by decide +kernel), r', d, hrun, hd, ?_⟩⟩
  refine ⟨Nat.le_of_eq hheaders.symm, ?_, fun i _ => rfl⟩
  unfold dhcp udph
  rw [hheaders, hcells.1]
  decide

theorem hops_of_travels_helper : ∃ pkt, Travels helperRequest.pkt [helperStop] pkt ∧
    (pkt (dhcp pkt + hopsOff)).toNat = 1 := by
  obtain ⟨pkt, htravels⟩ := helperStop_travels
  obtain ⟨hhops, -⟩ := hops_of_travels helperRequest_requestAt.op htravels
  have hstart : (helperRequest.pkt (dhcp helperRequest.pkt + hopsOff)).toNat = 0 := by
    decide +kernel
  have hcount : [helperStop].countP RelayStop.counts = 1 := by decide +kernel
  rw [hstart, hcount] at hhops
  exact ⟨pkt, htravels, hhops⟩

/-- But for the hop count and the agent address, the fixed fields of the message are those of the
client. The agent address is that of the first relay, unless the client gave one, and it is one. -/
theorem message_of_travels (hop : dhcpOp client = bootrequest) (h : Travels client stops pkt) :
    (∀ i : ℕ, i < optionsOff → (i : ℤ) ≠ hopsOff → (i < giaddrOff ∨ giaddrOff + 4 ≤ i) →
        pkt (dhcp pkt + i) = client (dhcp client + i)) ∧
      ∀ first ∈ stops.getLast?, giaddr pkt ≠ 0 ∧
        giaddr pkt = if giaddr client = 0 then first.address else giaddr client := by
  induction h with
  | sent => exact ⟨fun i _ _ _ => rfl, fun first hfirst => by cases hfirst⟩
  | @relayed stops stop pkt h hpasses ih =>
    have hop' := h.op hop
    refine ⟨fun i hi hhops hgiaddr => ?_, fun first hfirst => ?_⟩
    · rw [hpasses.other hop' hi hhops hgiaddr]
      exact ih.1 i hi hhops hgiaddr
    · have hgiaddr := hpasses.giaddr hop'
      cases h with
      | sent =>
        obtain rfl : stop = first := Option.some.inj hfirst
        refine ⟨?_, hgiaddr⟩
        rw [hgiaddr]
        split
        · exact RelayStop.address_ne_zero (hpasses.request hop').1
        · assumption
      | @relayed stops before _ h hbefore =>
        rw [List.getLast?_cons_cons] at hfirst
        obtain ⟨hne, heq⟩ := ih.2 first hfirst
        rw [if_neg hne] at hgiaddr
        rw [hgiaddr]
        exact ⟨hne, heq⟩

/-- The address of the relay is that of interface `1`. -/
theorem message_of_travels_helper : ∃ pkt, Travels helperRequest.pkt [helperStop] pkt ∧
    giaddr pkt = 0x0100000a := by
  obtain ⟨pkt, htravels⟩ := helperStop_travels
  obtain ⟨-, hfirst⟩ := message_of_travels helperRequest_requestAt.op htravels
  obtain ⟨-, hgiaddr⟩ := hfirst helperStop rfl
  have haddress : (if giaddr helperRequest.pkt = 0 then helperStop.address
      else giaddr helperRequest.pkt) = 0x0100000a := by decide +kernel
  exact ⟨pkt, htravels, hgiaddr.trans haddress⟩

end travels

end Udpfwd
end IpApps
