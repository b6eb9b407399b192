import IpApps.Lib.OnesComplement
import IpApps.Udpfwd.ReceivedBytes
import IpApps.Udpfwd.ReplyDestination

/-!
# The checksum of the IP header

`udpfwd_send_pkt_through_socket` sums as many bytes as `ip_len` says in the wrong byte order, with
the checksum field among them as the packet came with it. The header gets the right checksum if
these bytes happen to have the sum of the header without its checksum. All the calls of the
function are listed, for every way of a packet through the daemon.
-/

namespace IpApps
namespace Udpfwd

open Memory Endian OnesComplement

/-! ## Sums of words -/

section sums

variable {pkt : Packet}

theorem wordSum_eq (bs : List UInt8) : wordSum bs = (leWords bs).sum := by
  fun_induction wordSum bs with
  | case1 => rfl
  | case2 lo => rfl
  | case3 lo hi rest ih => rw [leWords, List.sum_cons, ih]

theorem wordSum_append {xs : List UInt8} (ys : List UInt8) (heven : xs.length % 2 = 0) :
    wordSum (xs ++ ys) = wordSum xs + wordSum ys := by
  rw [wordSum_eq, wordSum_eq, wordSum_eq, leWords_append ys heven, List.sum_append]

theorem wordSum_rawBytes {v : ℕ} (hv : v < 2 ^ 16) : wordSum (rawBytes v) = v := by
  have hlow : (UInt8.ofNat v).toNat = v % 256 := UInt8.toNat_ofNat'
  have hhigh : (UInt8.ofNat (v / 256)).toNat = v / 256 % 256 := UInt8.toNat_ofNat'
  show (UInt8.ofNat v).toNat + 256 * (UInt8.ofNat (v / 256)).toNat + 0 = v
  rw [hlow, hhigh]
  omega

theorem rawU16_lt (a : ℤ) : rawU16 pkt a < 2 ^ 16 := by
  have hlt := leVal_lt (slice pkt a 2)
  rwa [length_slice] at hlt

/-- The value of a field at an even offset is one word of the sum. -/
theorem wordSum_store_field {a : ℤ} {k n v : ℕ} (hn : 2 * k + 2 ≤ n) (hv : v < 2 ^ 16) :
    wordSum (slice (store pkt (a + (2 * k : ℕ)) (rawBytes v)) a n)
      = wordSum (slice (store pkt (a + (2 * k : ℕ)) (rawBytes 0)) a n) + v := by
  -- the bytes in front of the field, the field, and those behind it
  obtain ⟨r, rfl⟩ : ∃ r, n = 2 * k + (2 + r) := ⟨n - (2 * k + 2), by omega⟩
  have hparts : ∀ w, w < 2 ^ 16 →
      wordSum (slice (store pkt (a + (2 * k : ℕ)) (rawBytes w)) a (2 * k + (2 + r)))
        = wordSum (slice pkt a (2 * k)) + (w + wordSum (slice pkt (a + (2 * k : ℕ) + 2) r)) := by
    intro w hw
    have hfield : slice (store pkt (a + (2 * k : ℕ)) (rawBytes w)) (a + (2 * k : ℕ)) 2
        = rawBytes w := slice_store_self pkt _ (rawBytes w)
    have hfront : slice (store pkt (a + (2 * k : ℕ)) (rawBytes w)) a (2 * k)
        = slice pkt a (2 * k) := slice_store_outside pkt (Or.inl (Int.le_refl _))
    have hback : slice (store pkt (a + (2 * k : ℕ)) (rawBytes w)) (a + (2 * k : ℕ) + 2) r
        = slice pkt (a + (2 * k : ℕ) + 2) r :=
      slice_store_outside pkt (Or.inr (by rw [length_rawBytes]; omega))
    rw [slice_add, slice_add, wordSum_append _ (by rw [length_slice]; omega),
      wordSum_append _ (by rw [length_slice])]
    rw [hfront, hfield, Nat.cast_two, hback, wordSum_rawBytes hw]
  rw [hparts v hv, hparts 0 (by decide)]
  omega

theorem wordSum_slice_store {n v : ℕ} (hn : 12 ≤ n) (hv : v < 2 ^ 16) :
    wordSum (slice (store pkt ipSumOff (rawBytes v)) 0 n)
      = wordSum (slice (store pkt ipSumOff (rawBytes 0)) 0 n) + v :=
  @wordSum_store_field pkt 0 5 n v hn hv

end sums

/-! ## A call of the send function -/

/-- The ones-complement sum of the IP header, as the next host takes it. -/
def headerSum (pkt : Packet) : ℕ :=
  OnesComplement.sum (2 ^ 16) (beWords (slice pkt 0 (ipHl pkt * 4)))

/-- The packet, the size and the destination with which `udpfwd_send_pkt_through_socket` is
called. -/
structure SendCall where
  pkt : Packet
  size : ℕ
  sinAddr : IpAddress
  sinPort : UInt16

namespace SendCall

/-- The packet with its destination set. -/
def prepared (c : SendCall) : Packet :=
  store (store c.pkt ipDstOff (ipBytes c.sinAddr)) (udph c.pkt + uhDportOff)
    (htonsBytes c.sinPort.toNat)

/-- The packet that the function leaves. -/
def stored (c : SendCall) : Packet := Relay.addressed c.pkt c.sinAddr c.sinPort

/-- How many bytes the checksum covers. -/
def covered (c : SendCall) : ℕ := rawU16 c.pkt ipLenOff

/-- The header has the right checksum, and computing it reads no byte but the first `received`. -/
structure Checksummed (received : ℕ) (c : SendCall) : Prop where
  sum : headerSum c.stored = 0xffff
  reads : ∀ m m' : Packet, AgreeTo m m' received →
    inCksum m 0 c.covered 0 = inCksum m' 0 c.covered 0

/-- The bytes that the checksum covers were received, and have the sum that the header has without
its checksum. -/
structure CoversHeader (received : ℕ) (c : SendCall) : Prop where
  received : c.covered ≤ received
  sum : wordSum (slice c.prepared 0 c.covered) % 65535
    = wordSum (slice (store c.prepared ipSumOff (rawBytes 0)) 0 (ipHl c.pkt * 4)) % 65535

variable {c : SendCall} {received : ℕ}

theorem covered_lt : c.covered < 2 ^ 16 := rawU16_lt ipLenOff

/-- The checksum is stored behind the sum, and nothing else of the header is changed after it. -/
theorem stored_eq (hheaders : 5 ≤ ipHl c.pkt) :
    c.stored = store (store c.prepared ipSumOff (rawBytes (inCksum c.prepared 0 c.covered 0)))
      (udph c.pkt + uhSumOff) [0, 0] := by
  have hlen : rawU16 c.prepared ipLenOff = c.covered :=
    ipLen_destination (by unfold udph; omega)
  rw [← hlen]
  rfl

theorem stored_first : c.stored 0 = c.pkt 0 := addressed_kept c.sinAddr c.sinPort (Or.inl rfl)

theorem ipHl_stored : ipHl c.stored = ipHl c.pkt := by
  unfold ipHl
  rw [stored_first]

/-- The sum of the header that is sent is the one without a checksum and the checksum. -/
theorem wordSum_stored (hheaders : 5 ≤ ipHl c.pkt) :
    wordSum (slice c.stored 0 (ipHl c.pkt * 4))
      = wordSum (slice (store c.prepared ipSumOff (rawBytes 0)) 0 (ipHl c.pkt * 4))
        + inCksum c.prepared 0 c.covered 0 := by
  have hsum : inCksum c.prepared 0 c.covered 0 < 2 ^ 16 := by
    unfold inCksum
    simp only
    omega
  rw [stored_eq hheaders, slice_store_outside _ (Or.inl (by unfold udph uhSumOff; omega))]
  exact wordSum_slice_store (by omega) hsum

/-- A header of five words is not all zero, as its first byte says how long it is. -/
theorem wordSum_stored_ne_zero (hheaders : 5 ≤ ipHl c.pkt) :
    wordSum (slice c.stored 0 (ipHl c.pkt * 4)) ≠ 0 := by
  obtain ⟨k, hk⟩ : ∃ k, ipHl c.pkt * 4 = k + 1 + 1 := ⟨ipHl c.pkt * 4 - 2, by omega⟩
  have hbyte : 5 ≤ (c.pkt 0).toNat := by
    unfold ipHl at hheaders
    omega
  rw [hk, slice_succ, slice_succ, wordSum, stored_first]
  omega

theorem headerSum_iff (hheaders : 5 ≤ ipHl c.pkt) : headerSum c.stored = 0xffff ↔
    wordSum (slice c.prepared 0 c.covered) % 65535
      = wordSum (slice (store c.prepared ipSumOff (rawBytes 0)) 0 (ipHl c.pkt * 4)) % 65535 := by
  have hne := wordSum_stored_ne_zero hheaders
  have hstored := wordSum_stored hheaders
  -- the checksum makes up for the covered bytes, whatever they are
  have hcksum := @inCksum_add_wordSum c.prepared c.covered covered_lt
  rw [headerSum, sum_beWords_eq_ones_iff, ← wordSum_eq, ipHl_stored, and_iff_left hne, hstored]
  generalize inCksum c.prepared 0 c.covered 0 = cksum at *
  generalize wordSum (slice c.prepared 0 c.covered) = coveredSum at *
  generalize wordSum (slice (store c.prepared ipSumOff (rawBytes 0)) 0 (ipHl c.pkt * 4)) = plain
  omega

/-- A byte that is summed can be told from the sum. -/
theorem reads_iff : (∀ m m' : Packet, AgreeTo m m' received →
    inCksum m 0 c.covered 0 = inCksum m' 0 c.covered 0) ↔ c.covered ≤ received := by
  constructor
  · intro hreads
    by_contra hover
    obtain ⟨l, hl⟩ : ∃ l, c.covered = l + 1 := ⟨c.covered - 1, by omega⟩
    -- two packets that differ in the last byte only
    let m : Packet := fun _ => 0
    let m' : Packet := fun a => if a = l then 1 else 0
    have hagree : AgreeTo m m' l := fun a _ ha => (if_neg (by omega)).symm
    have hlast : m' l = m l + 1 := if_pos rfl
    have hlt := @covered_lt c
    have hsame := hreads m m' (hagree.mono (by omega))
    rw [hl] at hlt hsame
    exact inCksum_ne hlt hagree hlast hsame
  · intro hle m m' hagree
    unfold inCksum
    rw [hagree.slice (Int.le_refl 0) (by omega)]

/-- The checksum is right exactly if it covers received bytes with the right sum. -/
theorem checksummed_iff_covers (hheaders : 5 ≤ ipHl c.pkt) :
    c.Checksummed received ↔ c.CoversHeader received := by
  constructor
  · intro h
    exact ⟨reads_iff.mp h.reads, (headerSum_iff hheaders).mp h.sum⟩
  · intro h
    exact ⟨(headerSum_iff hheaders).mpr h.sum, reads_iff.mpr h.received⟩

end SendCall

/-! ## The calls that a packet leads to -/

/-- The calls of a loop over servers. `source` is what a round does to the packet first. -/
def loopCalls (source : Packet → Packet) (size : ℕ) (udpPort : UInt16) :
    Packet → List ServerKey → List SendCall
  | _, [] => []
  | pkt, k :: ks =>
    if k.2 ≠ udpPort then loopCalls source size udpPort pkt ks
    else
      let call : SendCall := ⟨source pkt, size, k.1, udpPort⟩
      call :: loopCalls source size udpPort call.stored ks

/-- The calls of `udpfwd_forward_packet`. -/
def forwardCalls (host : Host) (udpDport : UInt16) (size : ℕ) (r : Relay) : List SendCall :=
  match Relay.forwardNode host r with
  | none => []
  | some (_, p) => loopCalls id size udpDport r.pkt (r.state.keysAt p)

/-- The calls of `udpfwd_relay_to_dhcp_server`. -/
def requestCalls (cfg : FeatureConfig) (host : Host) (r : Relay) : List SendCall :=
  match Relay.requestNode host r with
  | none => []
  | some (ifName, p) =>
    match r.state.nodes p with
    | none => []
    | some n =>
      let outcome := Relay.requestOutcome cfg host ifName n r
      if outcome.result = .dropped then []
      else
        let interfaceIp := host.getLowestIpOnInterface ifName
        let pkt :=
          Relay.stampGiaddr host ifName n.bootpGw interfaceIp (dhcp r.pkt) outcome.pkt
        loopCalls (Relay.sourced interfaceIp) (ntohs pkt ipLenOff) dhcpsPort pkt
          (r.state.keysAt p)

/-- The calls at the end of `udpfwd_relay_to_dhcp_client`. -/
def clientCalls (rounds : ℕ) (dhcp : ℤ) (pkt : Packet) : List SendCall :=
  match dhcpPickupOpt rounds pkt dhcp (dhcpPktlen pkt) dhcpMsgtype with
  | none => []
  | some option =>
    match Relay.replyDest pkt dhcp option with
    | .broadcast => [⟨pkt, ntohs pkt ipLenOff, ipAddressBcast, dhcpcPort⟩]
    | .nowhere => []
    | .unicast sinAddr =>
      if arpReqRoom < (pkt (dhcp + hlenOff)).toNat then []
      else [⟨pkt, ntohs pkt ipLenOff, sinAddr, dhcpcPort⟩]

/-- The calls of `udpfwd_relay_to_dhcp_client`. -/
def replyCalls (rounds : ℕ) (cfg : FeatureConfig) (host : Host) (r : Relay) : List SendCall :=
  match replyNode host r with
  | none => []
  | some (ifIndex, ifName, _) =>
    let outcome := replyOutcome cfg host ifIndex ifName r
    if outcome.result = .dropped then [] else clientCalls rounds (dhcp r.pkt) outcome.pkt

/-- The calls of `udpfwd_send_pkt_through_socket` that a received packet leads to, in order. -/
def Received.calls (x : Received) (rounds : ℕ) : List SendCall :=
  if x.dport = dhcpsPort ∨ x.dport = dhcpcPort then
    if ¬x.cfg.enabled .dhcpRelay then []
    else if dhcpOp x.r.pkt = bootrequest then requestCalls x.cfg x.host x.r
    else if dhcpOp x.r.pkt = bootreply then
      if ipAt x.r.pkt ipDstOff ≠ ipAddressBcast then replyCalls rounds x.cfg x.host x.r else []
    else []
  else if ¬x.cfg.enabled .udpBcastForwarder then []
  else forwardCalls x.host x.dport x.size x.r

/-- What a datagram carries and where it goes. -/
def Datagram.carries (d : Datagram) : List UInt8 × IpAddress × UInt16 :=
  (d.bytes, d.sinAddr, d.sinPort)

/-- What a call sends. -/
def SendCall.sends (c : SendCall) : List UInt8 × IpAddress × UInt16 :=
  (slice c.stored 0 c.size, c.sinAddr, c.sinPort)

/-- From `r` to `r'` the datagrams of the calls are sent. -/
def Sends (cs : List SendCall) (r r' : Relay) : Prop :=
  r'.sent.map Datagram.carries = r.sent.map Datagram.carries ++ cs.map SendCall.sends

section sends

variable {cfg : FeatureConfig} {host : Host} {r r' r'' : Relay} {cs cs' : List SendCall}

theorem Sends.of_eq (h : r'.sent = r.sent) : Sends [] r r' := by
  unfold Sends
  rw [h, List.map_nil, List.append_nil]

theorem Sends.of_concat {c : SendCall} {d : Datagram} (hsent : r'.sent = r.sent ++ [d])
    (hd : d.carries = c.sends) : Sends [c] r r' := by
  unfold Sends
  rw [hsent, List.map_append, List.map_singleton, List.map_singleton, hd]

theorem Sends.trans (h : Sends cs r r') (h' : Sends cs' r' r'') : Sends (cs ++ cs') r r'' := by
  unfold Sends at *
  rw [h', h, List.map_append, List.append_assoc]

/-- A loop whose rounds make a call each, but for servers on other ports. -/
theorem sends_foldl {round : Relay → ServerKey → Relay} {source : Packet → Packet} {size : ℕ}
    {udpPort : UInt16} (hskip : ∀ r k, k.2 ≠ udpPort → round r k = r)
    (hcall : ∀ r k, k.2 = udpPort →
      let call : SendCall := ⟨source r.pkt, size, k.1, udpPort⟩
      (round r k).pkt = call.stored ∧ Sends [call] r (round r k)) (ks : List ServerKey) :
    Sends (loopCalls source size udpPort r.pkt ks) r (ks.foldl round r) := by
  induction ks generalizing r with
  | nil => exact .of_eq rfl
  | cons k ks ih =>
    unfold loopCalls
    rw [List.foldl_cons]
    by_cases hport : k.2 ≠ udpPort
    · rw [if_pos hport, hskip r k hport]
      exact ih
    · rw [if_neg hport]
      -- the next call is made with the packet that this one leaves
      obtain ⟨hpkt, hsends⟩ := hcall r k (not_not.mp hport)
      have hrest := @ih (round r k)
      rw [hpkt] at hrest
      exact hsends.trans hrest

/-- The forwarder sends what its calls say. -/
theorem sends_forwarded (host : Host) (udpDport : UInt16) (size : ℕ) (r : Relay) :
    Sends (forwardCalls host udpDport size r) r (Relay.forwarded host udpDport size r) := by
  unfold forwardCalls Relay.forwarded
  cases Relay.forwardNode host r with
  | none => exact .of_eq rfl
  | some found =>
    apply sends_foldl
    · exact fun r k hport => if_pos hport
    · intro r k hport
      unfold Relay.forwardToKey
      rw [if_neg (not_not_intro hport)]
      exact ⟨rfl, .of_concat rfl rfl⟩

/-- The loop over the helpers sends what its calls say. -/
theorem sends_relayLoop (host : Host) (size : ℕ) (interfaceIp : IpAddress) (p : NodePtr)
    (ks : List ServerKey) (r : Relay) :
    Sends (loopCalls (Relay.sourced interfaceIp) size dhcpsPort r.pkt ks) r
      (ks.foldl (Relay.relayToKey host size interfaceIp p) r) := by
  apply sends_foldl
  · exact fun r k hport => if_pos hport
  · intro r k hport
    unfold Relay.relayToKey
    rw [if_neg (not_not_intro hport)]
    exact ⟨rfl, .of_concat rfl rfl⟩

theorem sends_relayToDhcpServer (hl : Linked r.state)
    (hrun : Relay.relayToDhcpServer cfg host r = .ok r') :
    Sends (requestCalls cfg host r) r r' := by
  unfold requestCalls
  cases hnode : Relay.requestNode host r with
  | none =>
    obtain ⟨pkt, hnone⟩ := @Relay.relayToDhcpServer_none host r cfg hnode
    rw [hrun, Except.ok.injEq] at hnone
    subst hnone
    exact .of_eq rfl
  | some found =>
    obtain ⟨ifName, p⟩ := found
    obtain ⟨n, hp, -⟩ := (hl.shashFind_eq_some_iff ifName p).mp
      (Relay.requestNode_eq_some hnode).2.2.2.2
    rw [Relay.relayToDhcpServer_some hnode, Relay.relayRequest_eq cfg ifName hl hp,
      Except.ok.injEq] at hrun
    subst hrun
    simp only [hp]
    unfold Relay.requestRelayed Relay.relayedTo
    -- the calls depend on the outcome of option 82 processing only
    generalize Relay.requestOutcome cfg host ifName n r = outcome
    dsimp only
    cases hresult : outcome.result with
    | dropped =>
      rw [if_pos rfl]
      exact .of_eq rfl
    | valid =>
      rw [if_neg (by simp)]
      dsimp only
      generalize Relay.stampGiaddr host ifName n.bootpGw (host.getLowestIpOnInterface ifName)
        (dhcp r.pkt) outcome.pkt = pkt
      exact sends_relayLoop host (ntohs pkt ipLenOff) (host.getLowestIpOnInterface ifName) p
        (r.state.keysAt p)
        { r with pkt, state := r.state.counted p Relay.clientValidWithOption82 }
    | noop =>
      rw [if_neg (by simp)]
      dsimp only
      generalize Relay.stampGiaddr host ifName n.bootpGw (host.getLowestIpOnInterface ifName)
        (dhcp r.pkt) outcome.pkt = pkt
      exact sends_relayLoop host (ntohs pkt ipLenOff) (host.getLowestIpOnInterface ifName) p
        (r.state.keysAt p) { r with pkt }

theorem sends_sendReply {ifIndex : UInt32} {p : NodePtr} {sinAddr : IpAddress}
    {n : UdpfwdInterfaceNode} (hp : r.state.nodes p = some n)
    (hrun : Relay.sendReply host ifIndex p sinAddr r = .ok r') :
    Sends [⟨r.pkt, ntohs r.pkt ipLenOff, sinAddr, dhcpcPort⟩] r r' := by
  unfold Relay.sendReply at hrun
  simp only [Relay.sendPktThroughSocket] at hrun
  rw [State.count_eq _ hp] at hrun
  obtain rfl := Except.ok.inj hrun
  exact .of_concat rfl rfl

theorem sends_relayToClient {rounds : ℕ} {ifIndex : UInt32} {ifName : CString} {p : NodePtr}
    {dhcp : ℤ} {n : UdpfwdInterfaceNode} (hp : r.state.nodes p = some n)
    (hrun : Relay.relayToClient rounds host ifIndex ifName p dhcp r = .ok r') :
    Sends (clientCalls rounds dhcp r.pkt) r r' := by
  unfold Relay.relayToClient at hrun
  unfold clientCalls
  cases hpick : dhcpPickupOpt rounds r.pkt dhcp (dhcpPktlen r.pkt) dhcpMsgtype with
  | none =>
    rw [hpick] at hrun
    cases hrun
  | some option =>
    rw [hpick] at hrun
    dsimp only at hrun ⊢
    cases hdest : Relay.replyDest r.pkt dhcp option with
    | broadcast =>
      rw [hdest] at hrun
      exact sends_sendReply hp hrun
    | nowhere =>
      rw [hdest] at hrun
      dsimp only at hrun
      rw [State.count_eq _ hp] at hrun
      obtain rfl := Except.ok.inj hrun
      exact .of_eq rfl
    | unicast sinAddr =>
      rw [hdest] at hrun
      dsimp only at hrun ⊢
      -- a hardware address that is too long overruns the ARP request
      by_cases hover : arpReqRoom < (r.pkt (dhcp + hlenOff)).toNat
      · rw [if_pos hover] at hrun
        cases hrun
      · rw [if_neg hover] at hrun
        rw [if_neg hover]
        let arpReq := arpRequest ifName sinAddr (r.pkt (dhcp + htypeOff))
          (slice r.pkt (dhcp + chaddrOff) (r.pkt (dhcp + hlenOff)).toNat)
        exact sends_sendReply (r := { r with arpReqs := r.arpReqs ++ [arpReq] }) hp hrun

theorem sends_relayToDhcpClient {rounds : ℕ} (hl : Linked r.state)
    (hrun : Relay.relayToDhcpClient rounds cfg host r = .ok r') :
    Sends (replyCalls rounds cfg host r) r r' := by
  unfold replyCalls
  cases hnode : replyNode host r with
  | none =>
    obtain ⟨pkt, hnone⟩ := relayToDhcpClient_none rounds cfg hnode
    rw [hrun, Except.ok.injEq] at hnone
    subst hnone
    exact .of_eq rfl
  | some found =>
    obtain ⟨ifIndex, ifName, p⟩ := found
    obtain ⟨-, -, -, hfind⟩ := replyNode_eq_some hnode
    obtain ⟨n, hp, -⟩ := (hl.shashFind_eq_some_iff ifName p).mp hfind
    rw [relayToDhcpClient_eq rounds cfg hnode hp] at hrun
    dsimp only at hrun ⊢
    generalize replyOutcome cfg host ifIndex ifName r = outcome at hrun ⊢
    cases hresult : outcome.result with
    | dropped =>
      rw [hresult] at hrun
      obtain rfl := Except.ok.inj hrun
      rw [if_pos rfl]
      exact .of_eq rfl
    | valid =>
      rw [hresult] at hrun
      rw [if_neg (by simp)]
      have hnode' := State.nodes_counted serverValidWithOption82 hp
      exact sends_relayToClient (r := { r with
        pkt := outcome.pkt, state := r.state.counted p serverValidWithOption82 }) hnode' hrun
    | noop =>
      rw [hresult] at hrun
      rw [if_neg (by simp)]
      exact sends_relayToClient (r := { r with pkt := outcome.pkt }) hp hrun

/-- What a packet leads to is sent by its calls, and nothing else is sent. -/
theorem Received.sends_calls (x : Received) {rounds : ℕ} (hrun : x.ctrl rounds x.r.pkt = .ok r') :
    Sends (x.calls rounds) x.r r' := by
  unfold Received.ctrl Relay.udpfwdCtrl at hrun
  unfold Received.calls
  have hhere : UInt16.ofNat (ntohs x.r.pkt (udph x.r.pkt + uhDportOff)) = x.dport := rfl
  simp only [hhere] at hrun
  -- the branches of `udpfwd_ctrl`, in its order
  split at hrun
  · rename_i hdhcp
    rw [if_pos hdhcp]
    split at hrun
    · rename_i hoff
      rw [if_pos hoff]
      obtain rfl := Except.ok.inj hrun
      exact .of_eq rfl
    · rename_i hon
      rw [if_neg hon]
      split at hrun
      · rename_i hrequest
        rw [if_pos hrequest]
        exact sends_relayToDhcpServer x.linked hrun
      · rename_i hother
        rw [if_neg hother]
        split at hrun
        · rename_i hreply
          rw [if_pos hreply]
          split at hrun
          · rename_i hbcast
            rw [if_pos hbcast]
            exact sends_relayToDhcpClient x.linked hrun
          · rename_i hbcast
            rw [if_neg hbcast]
            obtain rfl := Except.ok.inj hrun
            exact .of_eq rfl
        · rename_i hreply
          rw [if_neg hreply]
          obtain rfl := Except.ok.inj hrun
          exact .of_eq rfl
  · rename_i hdhcp
    rw [if_neg hdhcp]
    split at hrun
    · rename_i hoff
      rw [if_pos hoff]
      obtain rfl := Except.ok.inj hrun
      exact .of_eq rfl
    · rename_i hon
      rw [if_neg hon]
      have hforward := @Relay.forwardPacket_eq x.host x.size x.r x.dport x.linked
      rw [hforward] at hrun
      obtain rfl := Except.ok.inj hrun
      exact sends_forwarded x.host x.dport x.size x.r

end sends

/-! ## What the calls are made with -/

section first

variable {cfg : FeatureConfig} {host : Host} {c : SendCall}

/-- The first byte is the same in every round. -/
theorem loopCalls_first {source : Packet → Packet} {size : ℕ} {udpPort : UInt16}
    (hsource : ∀ pkt : Packet, source pkt 0 = pkt 0) {ks : List ServerKey} {pkt : Packet}
    (hc : c ∈ loopCalls source size udpPort pkt ks) : c.pkt 0 = pkt 0 := by
  induction ks generalizing pkt with
  | nil => nomatch hc
  | cons k ks ih =>
    unfold loopCalls at hc
    split at hc
    · exact ih hc
    · cases List.mem_cons.mp hc with
      | inl hthis =>
        rw [hthis]
        exact hsource pkt
      | inr hlater =>
        rw [ih hlater]
        exact SendCall.stored_first.trans (hsource pkt)

theorem requestCalls_first {r : Relay} (hc : c ∈ requestCalls cfg host r) :
    c.pkt 0 = r.pkt 0 := by
  have hpos := udph_nonneg r.pkt
  unfold requestCalls at hc
  split at hc
  · nomatch hc
  · rename_i ifName p hnode
    split at hc
    · nomatch hc
    · rename_i n hp
      dsimp only at hc
      split at hc
      · nomatch hc
      · rw [loopCalls_first (fun pkt => sourced_outside (Or.inl (by decide))) hc,
          stampGiaddr_outside (Or.inl (by unfold dhcp udphdrLength giaddrOff; omega))]
        -- neither the port correction nor option 82 processing touches the first byte
        have hprocess := process_first ⟨cfg, host, ⟨0, host.getLowestIpOnInterface ifName⟩,
          r.pktInfo.ipiIfindex, ifName, n.bootpGw⟩ (Relay.countHop cfg (Relay.correctPort r.pkt))
        have hhops : Relay.countHop cfg (Relay.correctPort r.pkt) 0 = Relay.correctPort r.pkt 0 :=
          countHop_kept cfg (Or.inl rfl)
        exact hprocess.trans (hhops.trans correctPort_first)

theorem clientCalls_pkt {rounds : ℕ} {dhcp : ℤ} {pkt : Packet}
    (hc : c ∈ clientCalls rounds dhcp pkt) : c.pkt = pkt := by
  unfold clientCalls at hc
  split at hc
  · nomatch hc
  · split at hc
    · rw [List.mem_singleton.mp hc]
    · nomatch hc
    · split at hc
      · nomatch hc
      · rw [List.mem_singleton.mp hc]

theorem replyCalls_first {rounds : ℕ} {r : Relay} (hc : c ∈ replyCalls rounds cfg host r) :
    c.pkt 0 = r.pkt 0 := by
  unfold replyCalls at hc
  split at hc
  · nomatch hc
  · rename_i ifIndex ifName p hnode
    dsimp only at hc
    split at hc
    · nomatch hc
    · rw [clientCalls_pkt hc]
      have hprocess := process_first ⟨cfg, host, ⟨0, 0⟩, ifIndex, ifName, 0⟩
        (Relay.addToByte r.pkt ipTtlOff (-1))
      exact hprocess.trans (addToByte_kept (by decide) (-1))

/-- Whatever was done to the packet before, its headers are where they were. -/
theorem Received.calls_first {x : Received} {rounds : ℕ} (hc : c ∈ x.calls rounds) :
    c.pkt 0 = x.r.pkt 0 := by
  unfold Received.calls at hc
  split at hc
  · split at hc
    · nomatch hc
    split at hc
    · exact requestCalls_first hc
    split at hc
    · split at hc
      · exact replyCalls_first hc
      · nomatch hc
    · nomatch hc
  · split at hc
    · nomatch hc
    · unfold forwardCalls at hc
      split at hc
      · nomatch hc
      · exact loopCalls_first (fun pkt => rfl) hc

end first

/-- The listed calls are those that send the datagrams of a packet, and a datagram of them has the
right IP checksum exactly if the bytes that its checksum covers were received and have the sum of
its header. -/
theorem checksummed_iff (x : Received) (rounds : ℕ) :
    (∀ r', x.ctrl rounds x.r.pkt = .ok r' → Sends (x.calls rounds) x.r r') ∧
      ∀ c ∈ x.calls rounds, (c.Checksummed x.size ↔ c.CoversHeader x.size) := by
  refine ⟨fun r' hrun => x.sends_calls hrun, fun c hc => ?_⟩
  have hheaders : 5 ≤ ipHl c.pkt := by
    unfold ipHl
    rw [Received.calls_first hc]
    exact x.headers
  exact SendCall.checksummed_iff_covers hheaders

/-! ### Three queries of a client -/

/-- A DNS query of `size` bytes that a client with the address 10.0.0.9 broadcasts. -/
def clientQuery (size cksum : ℕ) (payload : List UInt8) : Packet :=
  store (fun _ => 0) 0
    ([0x45, 0] ++ htonsBytes size ++ [0, 0, 0, 0, 64, 17] ++ htonsBytes cksum
      ++ [10, 0, 0, 9, 255, 255, 255, 255] ++ [4, 0, 0, 53] ++ htonsBytes (size - 20) ++ [0, 0]
      ++ payload)

/-- The query comes in on interface `1`. -/
def receivedQuery (size cksum : ℕ) (payload : List UInt8) (hfits : size < recvBufferSize) :
    Received where
  cfg := dnsQuery.cfg
  host := helperHost
  size := size
  r := { dnsQuery.r with pkt := clientQuery size cksum payload }
  headers := by simp [ipHl, clientQuery, store]
  fits := hfits
  linked := dnsCache_linked

/-- The call for the DNS server of the interface. -/
def queryCall (size cksum : ℕ) (payload : List UInt8) : SendCall :=
  ⟨clientQuery size cksum payload, size, 0x0200000a, 53⟩

/-- All three come with the right checksum. -/
example : headerSum (clientQuery 256 0x6fe5 []) = 0xffff ∧
    headerSum (clientQuery 257 0x6fe4 [0x8a, 0xf9]) = 0xffff ∧
    headerSum (clientQuery 258 0x6fe3 []) = 0xffff := by decide +kernel

/-- A query of 257 bytes has the same two bytes for its length, and the first two bytes of its
payload make the rest add up to zero. -/
theorem checksummed_iff_evenPayload :
    (queryCall 257 0x6fe4 [0x8a, 0xf9]).Checksummed 257 := by
  have hquery := checksummed_iff (receivedQuery 257 0x6fe4 [0x8a, 0xf9] (by decide)) 0
  apply (hquery.2 _ (List.mem_singleton.mpr rfl)).mpr
  exact ⟨by decide +kernel, by decide +kernel⟩

/-- Of 256 bytes, the checksum covers one. Of 258, it covers 513. -/
theorem query_not_checksummed :
    (¬∀ (x : Received) (rounds : ℕ), ∀ c ∈ x.calls rounds, headerSum c.stored = 0xffff) ∧
      ¬∀ (x : Received) (rounds : ℕ), ∀ c ∈ x.calls rounds, ∀ m m' : Packet, AgreeTo m m' x.size →
        inCksum m 0 c.covered 0 = inCksum m' 0 c.covered 0 := by
  constructor
  · intro hall
    have hsum := hall (receivedQuery 256 0x6fe5 [] (by decide)) 0 (queryCall 256 0x6fe5 [])
      (List.mem_singleton.mpr rfl)
    revert hsum
    decide +kernel
  · intro hall
    have hreads := hall (receivedQuery 258 0x6fe3 [] (by decide)) 0 (queryCall 258 0x6fe3 [])
      (List.mem_singleton.mpr rfl)
    have hcovered := SendCall.reads_iff.mp hreads
    revert hcovered
    decide +kernel

end Udpfwd
end IpApps
