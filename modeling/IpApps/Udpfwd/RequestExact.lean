import IpApps.Udpfwd.Interfaces
import IpApps.Udpfwd.RelayLoop

/-!
# What a relayed request looks like

Without option 82 a request is changed in a few fields only and goes to each helper of the
interface it came in on. The source port is compared and set in the byte order of the host,
so it is not port 68 that is corrected.
-/

namespace IpApps
namespace Udpfwd

open Memory Endian ExceptLoops

/-! ## Fields of a datagram -/

/-- The datagram has the bytes `bs` at the offset `a`, as far as it goes. -/
def Datagram.Has (d : Datagram) (a : ℤ) (bs : List UInt8) : Prop :=
  ∀ (i : ℕ) (hi : i < bs.length), a + i < d.bytes.length → d.packet (a + i) = bs[i]

theorem Datagram.cell {d : Datagram} {pkt : Packet} {size : ℕ} {a : ℤ}
    (hbytes : d.bytes = slice pkt 0 size) (ha : 0 ≤ a) (hlt : a < d.bytes.length) :
    d.packet a = pkt a := by
  rw [hbytes, length_slice] at hlt
  have hcell := slice_packet (n := 1) hbytes ha (by omega)
  rw [slice_succ, slice_succ] at hcell
  exact (List.cons.inj hcell).1

theorem Datagram.has_of_slice {d : Datagram} {pkt : Packet} {size : ℕ} {a : ℤ}
    {bs : List UInt8} (hbytes : d.bytes = slice pkt 0 size) (ha : 0 ≤ a)
    (hslice : slice pkt a bs.length = bs) : d.Has a bs := by
  intro i hi hlt
  rw [Datagram.cell hbytes (by omega) hlt]
  have hcell := eq_of_slice_eq pkt hslice hi
  rw [List.getElem?_eq_getElem hi] at hcell
  exact Option.some.inj hcell

/-! ## The copy for a server -/

/-- The cells of the headers that sending to a server sets: the checksum and the addresses
of IP, the destination port and the checksum of UDP. -/
def HeaderCell (udph a : ℤ) : Prop :=
  (ipSumOff ≤ a ∧ a < ipDstOff + 4) ∨ (udph + uhDportOff ≤ a ∧ a < udph + uhUlenOff) ∨
    (udph + uhSumOff ≤ a ∧ a < udph + udphdrLength)

/-- The source address a copy of the packet carries. -/
def sourceBytes (interfaceIp : IpAddress) (pkt : Packet) : List UInt8 :=
  if ipAt pkt ipSrcOff = 0 then ipBytes interfaceIp else slice pkt ipSrcOff 4

/-- `pkt'` is the packet as it is sent to `server`. -/
structure CopyFor (interfaceIp : IpAddress) (pkt : Packet) (server : IpAddress)
    (pkt' : Packet) : Prop where
  kept : ∀ a, ¬HeaderCell (udph pkt) a → pkt' a = pkt a
  src : slice pkt' ipSrcOff 4 = sourceBytes interfaceIp pkt
  dst : slice pkt' ipDstOff 4 = ipBytes server
  dport : slice pkt' (udph pkt + uhDportOff) 2 = htonsBytes dhcpsPort.toNat

/-- `pkt'` is the packet, or a copy of it for some server. -/
structure CopyOf (interfaceIp : IpAddress) (pkt pkt' : Packet) : Prop where
  kept : ∀ a, ¬HeaderCell (udph pkt) a → pkt' a = pkt a
  src : sourceBytes interfaceIp pkt' = sourceBytes interfaceIp pkt

theorem CopyOf.refl (interfaceIp : IpAddress) (pkt : Packet) : CopyOf interfaceIp pkt pkt :=
  ⟨fun _ _ => rfl, rfl⟩

section copies

variable {interfaceIp server : IpAddress} {pkt pkt' : Packet}

theorem slice_sourced : slice (Relay.sourced interfaceIp pkt) ipSrcOff 4
    = sourceBytes interfaceIp pkt := by
  unfold Relay.sourced sourceBytes
  split
  · exact slice_store_self pkt ipSrcOff (ipBytes interfaceIp)
  · rfl

theorem sourced_outside {a : ℤ} (ha : a < ipSrcOff ∨ ipDstOff ≤ a) :
    Relay.sourced interfaceIp pkt a = pkt a := by
  unfold Relay.sourced
  split
  · apply store_outside
    unfold ipSrcOff ipDstOff at *
    rw [length_ipBytes]
    omega
  · rfl

theorem CopyFor.copyOf (h : CopyFor interfaceIp pkt server pkt') :
    CopyOf interfaceIp pkt pkt' := by
  refine ⟨h.kept, ?_⟩
  have hsrc := h.src
  unfold sourceBytes at hsrc ⊢
  by_cases hzero : ipAt pkt ipSrcOff = 0
  · -- the source address was set to the interface's
    rw [if_pos hzero] at hsrc
    rw [if_pos hzero, hsrc, ite_self]
  · rw [if_neg hzero] at hsrc
    have hip : ipAt pkt' ipSrcOff = ipAt pkt ipSrcOff := by
      unfold ipAt
      rw [hsrc]
    rw [if_neg hzero, hip, if_neg hzero, hsrc]

/-- Sending a packet or a copy of it makes a copy for the server. -/
theorem CopyOf.addressed (h : CopyOf interfaceIp pkt pkt') (hudph : 20 ≤ udph pkt)
    (server : IpAddress) :
    CopyFor interfaceIp pkt server
      (Relay.addressed (Relay.sourced interfaceIp pkt') server dhcpsPort) := by
  have hfirst : Relay.sourced interfaceIp pkt' 0 = pkt 0 := by
    rw [sourced_outside (Or.inl (by decide)), h.kept]
    unfold HeaderCell ipSumOff ipDstOff uhDportOff uhUlenOff uhSumOff
    omega
  have hu : udph (Relay.sourced interfaceIp pkt') = udph pkt := udph_congr hfirst
  have hsource := @slice_sourced interfaceIp pkt'
  rw [h.src] at hsource
  refine ⟨?_, ?_, addressed_dst server dhcpsPort (by omega), ?_⟩
  · intro a ha
    unfold HeaderCell ipSumOff ipDstOff uhDportOff uhUlenOff uhSumOff udphdrLength at ha
    rw [addressed_outside, sourced_outside, h.kept]
    · unfold HeaderCell ipSumOff ipDstOff uhDportOff uhUlenOff uhSumOff udphdrLength
      omega
    · unfold ipSrcOff ipDstOff
      omega
    · unfold AddressedCell ipSumOff ipSrcOff ipDstOff uhDportOff uhUlenOff uhSumOff udphdrLength
      omega
  · rw [← hsource]
    apply slice_congr
    intro i hi
    apply addressed_outside
    unfold AddressedCell ipSumOff ipSrcOff ipDstOff uhDportOff uhUlenOff uhSumOff udphdrLength
    omega
  · rw [← hu]
    exact addressed_dport server dhcpsPort (by omega)

end copies

/-! ## The datagrams of the loop -/

/-- A datagram that carries the copy for `server` to it. -/
structure CarriesCopy (interfaceIp : IpAddress) (pkt : Packet) (size : ℕ) (server : IpAddress)
    (d : Datagram) : Prop where
  sinAddr : d.sinAddr = server
  sinPort : d.sinPort = dhcpsPort
  copy : ∃ pkt', CopyFor interfaceIp pkt server pkt' ∧ d.bytes = slice pkt' 0 size

theorem sent_relayLoop (host : Host) (size : ℕ) {interfaceIp : IpAddress} (p : NodePtr)
    {pkt : Packet} (hudph : 20 ≤ udph pkt) (ks : List ServerKey) {r : Relay}
    (h : CopyOf interfaceIp pkt r.pkt) :
    ∃ ds, (ks.foldl (Relay.relayToKey host size interfaceIp p) r).sent = r.sent ++ ds ∧
      List.Forall₂ (fun k d => CarriesCopy interfaceIp pkt size k.1 d)
        (ks.filter (·.2 = dhcpsPort)) ds := by
  have hskip : ∀ r k, k.2 ≠ dhcpsPort → Relay.relayToKey host size interfaceIp p r k = r :=
    fun r k hport => if_pos hport
  refine Relay.sent_foldl hskip ?_ ks h
  intro r k hport hcopy
  have hnext := hcopy.addressed hudph k.1
  unfold Relay.relayToKey
  rw [if_neg (not_not_intro hport)]
  exact ⟨hnext.copyOf, _, rfl, rfl, rfl, _, hnext, rfl⟩

/-! ## The request before it is sent -/

section stamping

variable {cfg : FeatureConfig} {host : Host} {ifName : CString} {bootpGw interfaceIp : IpAddress}
  {pkt : Packet}

/-- The agent address a request leaves with if it has none. -/
def stampAddress (host : Host) (ifName : CString) (bootpGw interfaceIp : IpAddress) : IpAddress :=
  if bootpGw ≠ 0 ∧ host.ipExistsOnInterface ifName bootpGw then bootpGw else interfaceIp

/-- The request as the loop over the servers finds it when there is no option 82. -/
def stampedRequest (cfg : FeatureConfig) (host : Host) (ifName : CString)
    (bootpGw interfaceIp : IpAddress) (pkt : Packet) : Packet :=
  Relay.stampGiaddr host ifName bootpGw interfaceIp (dhcp pkt)
    (Relay.countHop cfg (Relay.correctPort pkt))

/-- The cells in which the stamped request differs from the one received: the time to live,
the source port, the hop count and the agent address. -/
def StampedCell (udph a : ℤ) : Prop :=
  a = ipTtlOff ∨ (udph ≤ a ∧ a < udph + uhDportOff) ∨ a = udph + udphdrLength + hopsOff ∨
    (udph + udphdrLength + giaddrOff ≤ a ∧ a < udph + udphdrLength + giaddrOff + 4)

theorem correctPort_eq : Relay.correctPort pkt =
    if rawU16 pkt (udph pkt) = dhcpcPort.toNat then
      store pkt (udph pkt) (rawBytes dhcpsPort.toNat)
    else pkt := by
  unfold Relay.correctPort uhSportOff
  simp only [add_zero]

theorem correctPort_outside {a : ℤ} (ha : a < udph pkt ∨ udph pkt + uhDportOff ≤ a) :
    Relay.correctPort pkt a = pkt a := by
  rw [correctPort_eq]
  split
  · apply store_outside
    unfold uhDportOff at ha
    rw [length_rawBytes]
    omega
  · rfl

theorem countHop_outside {a : ℤ} (httl : a ≠ ipTtlOff) (hhops : a ≠ dhcp pkt + hopsOff) :
    Relay.countHop cfg pkt a = pkt a := by
  unfold Relay.countHop
  rw [addToByte_kept httl]
  split
  · exact addToByte_kept hhops 1
  · rfl

theorem stampGiaddr_outside {dhcp a : ℤ} (ha : a < dhcp + giaddrOff ∨ dhcp + giaddrOff + 4 ≤ a) :
    Relay.stampGiaddr host ifName bootpGw interfaceIp dhcp pkt a = pkt a := by
  unfold Relay.stampGiaddr
  split
  · apply store_outside
    rw [length_ipBytes]
    exact ha
  · rfl

theorem stampedRequest_outside {a : ℤ} (ha : ¬StampedCell (udph pkt) a) :
    stampedRequest cfg host ifName bootpGw interfaceIp pkt a = pkt a := by
  have hdhcp : dhcp (Relay.correctPort pkt) = dhcp pkt := dhcp_congr correctPort_first
  unfold StampedCell udphdrLength at ha
  unfold stampedRequest
  rw [stampGiaddr_outside, countHop_outside, correctPort_outside]
  · omega
  · omega
  · rw [hdhcp]
    unfold dhcp udphdrLength
    omega
  · unfold dhcp udphdrLength
    omega

variable (hudph : 20 ≤ udph pkt)

include hudph

theorem stampedRequest_sport :
    slice (stampedRequest cfg host ifName bootpGw interfaceIp pkt) (udph pkt) 2 =
      if rawU16 pkt (udph pkt) = dhcpcPort.toNat then rawBytes dhcpsPort.toNat
      else slice pkt (udph pkt) 2 := by
  have hdhcp : dhcp (Relay.correctPort pkt) = dhcp pkt := dhcp_congr correctPort_first
  have hslice : slice (stampedRequest cfg host ifName bootpGw interfaceIp pkt) (udph pkt) 2
      = slice (Relay.correctPort pkt) (udph pkt) 2 := by
    apply slice_congr
    intro i hi
    unfold stampedRequest
    rw [stampGiaddr_outside, countHop_outside]
    · unfold ipTtlOff
      omega
    · rw [hdhcp]
      unfold dhcp udphdrLength hopsOff
      omega
    · unfold dhcp udphdrLength giaddrOff
      omega
  rw [hslice, correctPort_eq]
  split
  · exact slice_store_self pkt (udph pkt) (rawBytes dhcpsPort.toNat)
  · rfl

theorem stampedRequest_hops :
    stampedRequest cfg host ifName bootpGw interfaceIp pkt (dhcp pkt + hopsOff) =
      pkt (dhcp pkt + hopsOff) + if cfg.enabled .dhcpRelayHopCountIncrement then 1 else 0 := by
  have hdhcp : dhcp (Relay.correctPort pkt) = dhcp pkt := dhcp_congr correctPort_first
  have hport : Relay.correctPort pkt (dhcp pkt + hopsOff) = pkt (dhcp pkt + hopsOff) := by
    apply correctPort_outside
    unfold dhcp udphdrLength uhDportOff hopsOff
    omega
  unfold stampedRequest Relay.countHop
  rw [stampGiaddr_outside (Or.inl (by unfold hopsOff giaddrOff; omega)), addToByte_kept]
  · split
    · unfold Relay.addToByte
      rw [hdhcp, hport]
      have hself := slice_store_self (Relay.correctPort pkt) (dhcp pkt + hopsOff)
        [pkt (dhcp pkt + hopsOff) + 1]
      rw [List.length_singleton, slice_succ] at hself
      exact (List.cons.inj hself).1
    · rw [hport]
      exact (UInt8.add_zero _).symm
  · unfold dhcp udphdrLength ipTtlOff hopsOff
    omega

theorem stampedRequest_giaddr :
    slice (stampedRequest cfg host ifName bootpGw interfaceIp pkt) (dhcp pkt + giaddrOff) 4 =
      if giaddr pkt = 0 then ipBytes (stampAddress host ifName bootpGw interfaceIp)
      else slice pkt (dhcp pkt + giaddrOff) 4 := by
  have hdhcp : dhcp (Relay.correctPort pkt) = dhcp pkt := dhcp_congr correctPort_first
  have hslice : slice (Relay.countHop cfg (Relay.correctPort pkt)) (dhcp pkt + giaddrOff) 4
      = slice pkt (dhcp pkt + giaddrOff) 4 := by
    apply slice_congr
    intro i hi
    rw [countHop_outside, correctPort_outside]
    · unfold dhcp udphdrLength giaddrOff uhDportOff
      omega
    · unfold dhcp udphdrLength giaddrOff ipTtlOff
      omega
    · rw [hdhcp]
      unfold giaddrOff hopsOff
      omega
  have hip : ipAt (Relay.countHop cfg (Relay.correctPort pkt)) (dhcp pkt + giaddrOff)
      = giaddr pkt := by
    unfold giaddr ipAt
    rw [hslice]
  unfold stampedRequest Relay.stampGiaddr
  rw [hip]
  split
  · exact slice_store_self _ (dhcp pkt + giaddrOff) (ipBytes _)
  · exact hslice

end stamping

/-! ## Relaying a request -/

/-- A request while option 82 is disabled. IP delivers no packet with a header of fewer than
five words. -/
structure Request where
  cfg : FeatureConfig
  host : Host
  r : Relay
  headers : 5 ≤ ipHl r.pkt
  op : dhcpOp r.pkt = bootrequest
  noOption82 : ¬cfg.enabled .dhcpRelayOption82
  linked : Linked r.state
  sent : r.sent = []

namespace Request

variable (x : Request)

/-- The interface the request came in on. -/
def ifName : Option CString :=
  if x.r.pktInfo.ipiIfindex = Host.noIfIndex then none
  else x.host.ifIndextoname x.r.pktInfo.ipiIfindex

/-- The request is not for this relay to forward: too many hops, or an interface without an
address or without a node. -/
def Drops : Prop :=
  udpfwdDhcpMaxHops < x.r.pkt (dhcp x.r.pkt + hopsOff) ∨ ∀ ifName, x.ifName = some ifName →
    x.host.getLowestIpOnInterface ifName = 0 ∨ x.r.state.interface ifName = none

/-- The helpers of the interface, in array order. -/
def helpers (ks : List ServerKey) : List ServerKey := ks.filter (·.2 = dhcpsPort)

/-- The source port of the request. -/
def sport : ℕ := ntohs x.r.pkt (udph x.r.pkt + uhSportOff)

/-- A datagram is the request for `server`, field by field. -/
structure RelayedTo (ifName : CString) (bootpGw server : IpAddress) (d : Datagram) : Prop where
  dest : d.sinAddr = server ∧ d.sinPort = dhcpsPort
  size : d.bytes.length = ntohs x.r.pkt ipLenOff
  ipSrc : d.Has ipSrcOff (sourceBytes (x.host.getLowestIpOnInterface ifName) x.r.pkt)
  ipDst : d.Has ipDstOff (ipBytes server)
  uhSport : d.Has (udph x.r.pkt + uhSportOff)
    (if x.sport = dhcpcPort.toNat then htonsBytes dhcpsPort.toNat
      else slice x.r.pkt (udph x.r.pkt + uhSportOff) 2)
  uhDport : d.Has (udph x.r.pkt + uhDportOff) (htonsBytes dhcpsPort.toNat)
  hops : d.Has (dhcp x.r.pkt + hopsOff) [x.r.pkt (dhcp x.r.pkt + hopsOff) +
    if x.cfg.enabled .dhcpRelayHopCountIncrement then 1 else 0]
  giaddr : d.Has (dhcp x.r.pkt + giaddrOff)
    (if giaddr x.r.pkt = 0 then
        ipBytes (stampAddress x.host ifName bootpGw (x.host.getLowestIpOnInterface ifName))
      else slice x.r.pkt (dhcp x.r.pkt + giaddrOff) 4)
  others : ∀ a, dhcp x.r.pkt ≤ a → a < d.bytes.length → a ≠ dhcp x.r.pkt + hopsOff →
    (a < dhcp x.r.pkt + giaddrOff ∨ dhcp x.r.pkt + giaddrOff + 4 ≤ a) → d.packet a = x.r.pkt a

/-- What relaying the request should do. -/
def RelaysExactly : Prop :=
  ∃ r', Relay.relayToDhcpServer x.cfg x.host x.r = .ok r' ∧ (x.Drops → r'.sent = []) ∧
    ∀ ifName n ks, ¬x.Drops → x.ifName = some ifName →
      x.r.state.interface ifName = some (n, ks) →
      List.Forall₂ (fun k d => x.RelayedTo ifName n.bootpGw k.1 d) (helpers ks) r'.sent

/-- The source port comes out right: nothing is sent, or it is neither 68 nor the port whose
bytes are those of 68 the other way round, as far as the datagram holds it. -/
def SourcePortKept : Prop :=
  x.Drops ∨
    (∀ ifName n ks, x.ifName = some ifName → x.r.state.interface ifName = some (n, ks) →
      helpers ks = []) ∨
    ((x.sport = dhcpcPort.toNat → (ntohs x.r.pkt ipLenOff : ℤ) ≤ udph x.r.pkt + 1) ∧
      (rawU16 x.r.pkt (udph x.r.pkt) = dhcpcPort.toNat →
        (ntohs x.r.pkt ipLenOff : ℤ) ≤ udph x.r.pkt))

theorem udph_ge : 20 ≤ udph x.r.pkt := by
  have h := x.headers
  unfold udph
  omega

/-- The request as it is when the loop over the servers starts. -/
def stamped (ifName : CString) (bootpGw : IpAddress) : Packet :=
  stampedRequest x.cfg x.host ifName bootpGw (x.host.getLowestIpOnInterface ifName) x.r.pkt

theorem requestNode_eq_none (h : x.Drops) : Relay.requestNode x.host x.r = none := by
  cases hnode : Relay.requestNode x.host x.r with
  | none => rfl
  | some found =>
    obtain ⟨hindex, hname, hip, hhops, hfind⟩ := Relay.requestNode_eq_some hnode
    have hcase := (h.resolve_left hhops) found.1 (by rw [ifName, if_neg hindex, hname])
    rw [(interface_eq_none_iff x.linked).mp (hcase.resolve_left hip)] at hfind
    exact absurd hfind (by simp)

theorem requestNode_eq_some {ifName : CString} {p : NodePtr} (h : ¬x.Drops)
    (hname : x.ifName = some ifName) (hfind : x.r.state.shashFind ifName = some p) :
    Relay.requestNode x.host x.r = some (ifName, p) := by
  have hhops : ¬udpfwdDhcpMaxHops < x.r.pkt (dhcp x.r.pkt + hopsOff) := fun hcase =>
    h (Or.inl hcase)
  have hip : ¬x.host.getLowestIpOnInterface ifName = 0 := by
    intro hcase
    refine h (Or.inr fun other hother => ?_)
    rw [hname, Option.some.injEq] at hother
    rw [← hother]
    exact Or.inl hcase
  unfold Request.ifName at hname
  unfold Relay.requestNode
  split at hname
  · exact absurd hname (by simp)
  · rename_i hindex
    simp only [hindex, if_false, hname, hip, hhops, hfind, Option.map_some]

theorem outcome_eq (ifName : CString) (n : UdpfwdInterfaceNode) :
    Relay.requestOutcome x.cfg x.host ifName n x.r =
      ⟨.noop, Relay.countHop x.cfg (Relay.correctPort x.r.pkt),
        ⟨0, x.host.getLowestIpOnInterface ifName⟩⟩ := by
  unfold Relay.requestOutcome processDhcpRelayOption82Message
  rw [if_pos x.noOption82]

theorem stamped_outside {ifName : CString} {bootpGw : IpAddress} {a : ℤ}
    (ha : ¬StampedCell (udph x.r.pkt) a) : x.stamped ifName bootpGw a = x.r.pkt a :=
  stampedRequest_outside ha

theorem slice_stamped {ifName : CString} {bootpGw : IpAddress} {a : ℤ} {k : ℕ}
    (ha : ∀ i : ℕ, i < k → ¬StampedCell (udph x.r.pkt) (a + i)) :
    slice (x.stamped ifName bootpGw) a k = slice x.r.pkt a k := by
  apply slice_congr
  intro i hi
  exact x.stamped_outside (ha i hi)

/-- What is sent if the request is relayed. -/
theorem relay_sent {ifName : CString} {n : UdpfwdInterfaceNode} {ks : List ServerKey}
    (h : ¬x.Drops) (hname : x.ifName = some ifName)
    (hintf : x.r.state.interface ifName = some (n, ks)) :
    ∃ r', Relay.relayToDhcpServer x.cfg x.host x.r = .ok r' ∧
      List.Forall₂ (fun k d => CarriesCopy (x.host.getLowestIpOnInterface ifName)
        (x.stamped ifName n.bootpGw) (ntohs x.r.pkt ipLenOff) k.1 d) (helpers ks) r'.sent := by
  obtain ⟨p, hfind, hp, rfl⟩ := interface_eq_some hintf
  have hge := x.udph_ge
  -- neither the header length nor the total length is a cell that is stamped
  have hudph : udph (x.stamped ifName n.bootpGw) = udph x.r.pkt := by
    apply udph_congr
    apply x.stamped_outside
    unfold StampedCell ipTtlOff udphdrLength hopsOff giaddrOff
    omega
  have hsize : ntohs (x.stamped ifName n.bootpGw) ipLenOff = ntohs x.r.pkt ipLenOff := by
    unfold ntohs
    rw [x.slice_stamped]
    intro i hi
    unfold StampedCell ipLenOff ipTtlOff udphdrLength hopsOff giaddrOff
    omega
  have hrun : Relay.relayToDhcpServer x.cfg x.host x.r
      = .ok (Relay.requestRelayed x.cfg x.host ifName p n x.r) := by
    rw [Relay.relayToDhcpServer_some (x.requestNode_eq_some h hname hfind)]
    exact Relay.relayRequest_eq x.cfg ifName x.linked hp
  have hstart : CopyOf (x.host.getLowestIpOnInterface ifName) (x.stamped ifName n.bootpGw)
      { x.r with pkt := x.stamped ifName n.bootpGw }.pkt := by
    dsimp only
    exact CopyOf.refl _ _
  obtain ⟨ds, hsent, hds⟩ := sent_relayLoop x.host (ntohs x.r.pkt ipLenOff) p
    (by rw [hudph]; exact hge) (x.r.state.keysAt p) hstart
  have hrelayed : (Relay.requestRelayed x.cfg x.host ifName p n x.r).sent = ds := by
    unfold Relay.requestRelayed
    rw [x.outcome_eq]
    show (Relay.relayedTo x.host ifName n.bootpGw p (dhcp x.r.pkt) _ _).sent = ds
    rw [x.sent, List.nil_append] at hsent
    rw [← hsent, ← hsize]
    rfl
  rw [← hrelayed] at hds
  exact ⟨_, hrun, hds⟩

/-! ### Field by field -/

/-- The two bytes of the source port as they leave. -/
def sentSport : List UInt8 :=
  if rawU16 x.r.pkt (udph x.r.pkt) = dhcpcPort.toNat then rawBytes dhcpsPort.toNat
  else slice x.r.pkt (udph x.r.pkt) 2

/-- A copy of the stamped request is right in every field but for the source port, which
comes out as `sentSport`. -/
theorem relayedTo_iff {ifName : CString} {bootpGw server : IpAddress} {d : Datagram}
    (hd : CarriesCopy (x.host.getLowestIpOnInterface ifName) (x.stamped ifName bootpGw)
      (ntohs x.r.pkt ipLenOff) server d) :
    d.Has (udph x.r.pkt) x.sentSport ∧
    (x.RelayedTo ifName bootpGw server d ↔ d.Has (udph x.r.pkt)
      (if x.sport = dhcpcPort.toNat then htonsBytes dhcpsPort.toNat
        else slice x.r.pkt (udph x.r.pkt) 2)) := by
  obtain ⟨hsinAddr, hsinPort, pkt', hcopy, hbytes⟩ := hd
  have hge := x.udph_ge
  have hudph : udph (x.stamped ifName bootpGw) = udph x.r.pkt := by
    apply udph_congr
    apply x.stamped_outside
    unfold StampedCell ipTtlOff udphdrLength hopsOff giaddrOff
    omega
  have hkept := hcopy.kept
  rw [hudph] at hkept
  -- a range without header cells reads as in the stamped request
  have hslice : ∀ (a : ℤ) (k : ℕ), (∀ i : ℕ, i < k → ¬HeaderCell (udph x.r.pkt) (a + i)) →
      slice pkt' a k = slice (x.stamped ifName bootpGw) a k := by
    intro a k hcells
    apply slice_congr
    intro i hi
    exact hkept _ (hcells i hi)
  have hsport : d.Has (udph x.r.pkt) x.sentSport := by
    have hlen : x.sentSport.length = 2 := by
      unfold sentSport
      split
      · rfl
      · exact length_slice _ _ _
    apply Datagram.has_of_slice hbytes (by omega)
    rw [hlen, hslice]
    · exact stampedRequest_sport hge
    · intro i hi
      unfold HeaderCell ipSumOff ipDstOff uhDportOff uhUlenOff uhSumOff
      omega
  refine ⟨hsport, fun h => ?_, fun hright => ?_⟩
  · have hfield := h.uhSport
    unfold uhSportOff at hfield
    rwa [add_zero] at hfield
  refine ⟨⟨hsinAddr, hsinPort⟩, ?_, ?_, ?_, ?_, ?_, ?_, ?_, ?_⟩
  · rw [hbytes, length_slice]
  · -- the source address is set if it was 0.0.0.0
    have hsource : sourceBytes (x.host.getLowestIpOnInterface ifName) (x.stamped ifName bootpGw)
        = sourceBytes (x.host.getLowestIpOnInterface ifName) x.r.pkt := by
      have hsame : slice (x.stamped ifName bootpGw) ipSrcOff 4 = slice x.r.pkt ipSrcOff 4 := by
        apply x.slice_stamped
        intro i hi
        unfold StampedCell ipSrcOff ipTtlOff udphdrLength hopsOff giaddrOff
        omega
      unfold sourceBytes ipAt
      rw [hsame]
    have hlen : (sourceBytes (x.host.getLowestIpOnInterface ifName) x.r.pkt).length = 4 := by
      unfold sourceBytes
      split
      · exact length_ipBytes _
      · exact length_slice _ _ _
    apply Datagram.has_of_slice hbytes (by decide)
    rw [hlen, hcopy.src, hsource]
  · exact Datagram.has_of_slice hbytes (by decide) hcopy.dst
  · unfold uhSportOff
    rw [add_zero]
    exact hright
  · apply Datagram.has_of_slice hbytes (by unfold uhDportOff; omega)
    rw [← hudph]
    exact hcopy.dport
  · -- the hops are counted in the stamped request
    apply Datagram.has_of_slice hbytes (by unfold dhcp udphdrLength hopsOff; omega)
    rw [List.length_singleton, hslice, slice_succ, slice_zero]
    · exact congrArg (· :: []) (stampedRequest_hops hge)
    · intro i hi
      unfold HeaderCell dhcp ipSumOff ipDstOff uhDportOff uhUlenOff uhSumOff udphdrLength hopsOff
      omega
  · -- the agent address is set there, too
    have hlen : (if giaddr x.r.pkt = 0 then ipBytes (stampAddress x.host ifName bootpGw
        (x.host.getLowestIpOnInterface ifName))
        else slice x.r.pkt (dhcp x.r.pkt + giaddrOff) 4).length = 4 := by
      split
      · exact length_ipBytes _
      · exact length_slice _ _ _
    apply Datagram.has_of_slice hbytes (by unfold dhcp udphdrLength giaddrOff; omega)
    rw [hlen, hslice]
    · exact stampedRequest_giaddr hge
    · intro i hi
      unfold HeaderCell dhcp ipSumOff ipDstOff uhDportOff uhUlenOff uhSumOff udphdrLength
        giaddrOff
      omega
  · -- every other cell behind the UDP header
    intro a ha hlt hhops hgiaddr
    unfold dhcp udphdrLength at *
    rw [Datagram.cell hbytes (by omega) hlt, hkept, x.stamped_outside]
    · unfold StampedCell ipTtlOff udphdrLength uhDportOff
      omega
    · unfold HeaderCell ipSumOff ipDstOff uhDportOff uhUlenOff uhSumOff udphdrLength
      omega

/-- The two ports that come out wrong, as far as the datagram holds them. -/
theorem sport_iff {d : Datagram} (hlen : d.bytes.length = ntohs x.r.pkt ipLenOff)
    (hsent : d.Has (udph x.r.pkt) x.sentSport) :
    d.Has (udph x.r.pkt)
      (if x.sport = dhcpcPort.toNat then htonsBytes dhcpsPort.toNat
        else slice x.r.pkt (udph x.r.pkt) 2) ↔
      (x.sport = dhcpcPort.toNat → (ntohs x.r.pkt ipLenOff : ℤ) ≤ udph x.r.pkt + 1) ∧
        (rawU16 x.r.pkt (udph x.r.pkt) = dhcpcPort.toNat →
          (ntohs x.r.pkt ipLenOff : ℤ) ≤ udph x.r.pkt) := by
  unfold sentSport at hsent
  unfold sport uhSportOff at *
  rw [add_zero] at *
  set u := udph x.r.pkt with hu
  have hbytes : slice x.r.pkt u 2 = [x.r.pkt u, x.r.pkt (u + 1)] := by
    rw [slice_succ, slice_succ, slice_zero]
  have hraw : rawU16 x.r.pkt u = (x.r.pkt u).toNat + 256 * (x.r.pkt (u + 1)).toNat := by
    rw [rawU16, hbytes]
    simp [leVal]
  have hntohs : ntohs x.r.pkt u = (x.r.pkt (u + 1)).toNat + 256 * (x.r.pkt u).toNat := by
    rw [ntohs, hbytes]
    simp [beVal, leVal]
  have hb₀ := (x.r.pkt u).toNat_lt
  have hb₁ := (x.r.pkt (u + 1)).toNat_lt
  have hport : dhcpcPort.toNat = 68 := rfl
  by_cases hrawPort : rawU16 x.r.pkt u = dhcpcPort.toNat
  · -- the bytes 68, 0 are changed to 67, 0
    rw [if_pos hrawPort] at hsent
    have hnot : ¬ntohs x.r.pkt u = dhcpcPort.toNat := by omega
    have hcell : x.r.pkt u = 68 :=
      UInt8.toNat_inj.mp (show _ = 68 by rw [hraw] at hrawPort; omega)
    rw [if_neg hnot, hbytes, hcell]
    constructor
    · intro h
      refine ⟨fun hcase => absurd hcase hnot, fun _ => ?_⟩
      by_contra hlt
      have hright := h 0 (by simp) (by omega)
      have hwrong := hsent 0 (by decide) (by omega)
      have heq : (68 : UInt8) = 67 := hright.symm.trans hwrong
      exact absurd heq (by decide)
    · intro h i hi hlt
      have hshort := h.2 hrawPort
      omega
  · rw [if_neg hrawPort] at hsent
    by_cases hntohsPort : ntohs x.r.pkt u = dhcpcPort.toNat
    · -- the bytes 0, 68 stay
      rw [if_pos hntohsPort]
      have hcell₀ : x.r.pkt u = 0 :=
        UInt8.toNat_inj.mp (show _ = 0 by rw [hntohs] at hntohsPort; omega)
      have hcell₁ : x.r.pkt (u + 1) = 68 :=
        UInt8.toNat_inj.mp (show _ = 68 by rw [hntohs] at hntohsPort; omega)
      rw [hbytes, hcell₀, hcell₁] at hsent
      constructor
      · intro h
        refine ⟨fun _ => ?_, fun hcase => absurd hcase hrawPort⟩
        by_contra hlt
        have hright := h 1 (by decide) (by push_cast; omega)
        have hwrong := hsent 1 (by decide) (by push_cast; omega)
        rw [hright] at hwrong
        exact absurd hwrong (by decide)
      · intro h i hi hlt
        have hshort := h.1 hntohsPort
        have hfirst : i = 0 := by omega
        subst hfirst
        exact hsent 0 (by decide) hlt
    · -- any other port is copied
      rw [if_neg hntohsPort]
      exact iff_of_true hsent ⟨fun hcase => absurd hcase hntohsPort,
        fun hcase => absurd hcase hrawPort⟩

theorem relaysExactly_iff : x.RelaysExactly ↔ x.SourcePortKept := by
  unfold RelaysExactly SourcePortKept
  by_cases hdrops : x.Drops
  · obtain ⟨pkt, hrun⟩ := Relay.relayToDhcpServer_none (x.requestNode_eq_none hdrops)
    exact iff_of_true ⟨_, hrun, fun _ => x.sent, fun _ _ _ h => absurd hdrops h⟩ (Or.inl hdrops)
  -- the interface that relays the request
  have hnode : ∃ ifName n ks, x.ifName = some ifName ∧
      x.r.state.interface ifName = some (n, ks) := by
    by_contra hnone
    refine hdrops (Or.inr fun ifName hname => Or.inr ?_)
    cases hintf : x.r.state.interface ifName with
    | none => rfl
    | some intf => exact absurd ⟨ifName, intf.1, intf.2, hname, hintf⟩ hnone
  obtain ⟨ifName, n, ks, hname, hintf⟩ := hnode
  obtain ⟨r', hrun, hcopies⟩ := x.relay_sent hdrops hname hintf
  have hright : (∃ r'', Relay.relayToDhcpServer x.cfg x.host x.r = .ok r'' ∧
      (x.Drops → r''.sent = []) ∧ ∀ ifName n ks, ¬x.Drops → x.ifName = some ifName →
        x.r.state.interface ifName = some (n, ks) →
        List.Forall₂ (fun k d => x.RelayedTo ifName n.bootpGw k.1 d) (helpers ks) r''.sent) ↔
      List.Forall₂ (fun k d => x.RelayedTo ifName n.bootpGw k.1 d) (helpers ks) r'.sent := by
    constructor
    · intro h
      obtain ⟨r'', hrun', -, hall⟩ := h
      rw [hrun, Except.ok.injEq] at hrun'
      rw [hrun']
      exact hall ifName n ks hdrops hname hintf
    · intro h
      refine ⟨r', hrun, fun hcase => absurd hcase hdrops, ?_⟩
      intro other n' ks' _ hname' hintf'
      rw [hname, Option.some.injEq] at hname'
      subst hname'
      rw [hintf, Option.some.injEq, Prod.mk.injEq] at hintf'
      obtain ⟨rfl, rfl⟩ := hintf'
      exact h
  have hport : ∀ k d, CarriesCopy (x.host.getLowestIpOnInterface ifName)
      (x.stamped ifName n.bootpGw) (ntohs x.r.pkt ipLenOff) k d →
      (x.RelayedTo ifName n.bootpGw k d ↔
        (x.sport = dhcpcPort.toNat → (ntohs x.r.pkt ipLenOff : ℤ) ≤ udph x.r.pkt + 1) ∧
        (rawU16 x.r.pkt (udph x.r.pkt) = dhcpcPort.toNat →
          (ntohs x.r.pkt ipLenOff : ℤ) ≤ udph x.r.pkt)) := by
    intro k d hd
    obtain ⟨hsport, hiff⟩ := x.relayedTo_iff hd
    obtain ⟨-, -, pkt', -, hbytes⟩ := hd
    rw [hiff, x.sport_iff (by rw [hbytes, length_slice]) hsport]
  rw [hright, or_iff_right hdrops]
  constructor
  · intro h
    cases hhelpers : helpers ks with
    | nil =>
      left
      intro other n' ks' hname' hintf'
      rw [hname, Option.some.injEq] at hname'
      subst hname'
      rw [hintf, Option.some.injEq, Prod.mk.injEq] at hintf'
      rw [← hintf'.2]
      exact hhelpers
    | cons k rest =>
      -- the first datagram shows the source port
      right
      rw [hhelpers] at h hcopies
      obtain ⟨d, ds, hd, -, hds⟩ := List.forall₂_cons_left_iff.mp h
      rw [hds] at hcopies
      exact (hport k.1 d (List.forall₂_cons.mp hcopies).1).mp hd
  · intro h
    cases h with
    | inl hnone =>
      rw [hnone ifName n ks hname hintf, List.forall₂_nil_left_iff] at hcopies
      rw [hnone ifName n ks hname hintf, hcopies]
      exact .nil
    | inr hkept => exact hcopies.imp fun k d hd => (hport k.1 d hd).mpr hkept

end Request

/-! ### A request from port 68 -/

/-- Interface `1` has the helper 10.0.0.2. -/
def helperCache : Cache :=
  Cache.ofCalls [.create ['1'], .store 0 0x0200000a 67] _ rfl (by decide)

theorem helperCache_linked : Linked helperCache.state := helperCache.inv.linked

/-- A host with the interface `1`, which has the address 10.0.0.1. -/
def helperHost : Host where
  getifaddrs := some [⟨['1'], .inet 0x0100000a⟩]
  ifNameindex := some [(3, ['1'])]
  ifIndextoname := fun i => if i = 3 then some ['1'] else none
  sendmsg := fun _ => true
  unsetMac := Vector.replicate 6 0

/-- A DHCPDISCOVER from port 68 that comes in on interface `1`. -/
def clientRequest : Request where
  cfg := ⟨0x0002, .replace, .mac⟩
  host := helperHost
  r :=
    { pkt := store (store (requestPacket [0, 0, 0, 0] [53, 1, 1, 255]) ipLenOff (htonsBytes 272)) 20
        (htonsBytes 68)
      pktInfo := ⟨3, 0, 0xffffffff⟩
      state := helperCache.state }
  headers := by decide +kernel
  op := by decide +kernel
  noOption82 := by decide +kernel
  linked := helperCache_linked
  sent := rfl

theorem clientRequest_keeps_port : ¬∀ x : Request, x.RelaysExactly := by
  intro hall
  obtain ⟨r', hrun, -, hsent⟩ := hall clientRequest
  have hrelayed : ¬clientRequest.Drops := by
    intro hdrops
    have hip := (hdrops.resolve_left (by decide +kernel)) ['1'] rfl
    exact absurd hip (by decide +kernel)
  have hdatagrams := hsent ['1'] ⟨['1'], 1, some (some 0 :: List.replicate 15 none), 0, {}⟩
    [(0x0200000a, 67)] hrelayed rfl rfl
  obtain ⟨d, ds, hd, -, hds⟩ := List.forall₂_cons_left_iff.mp hdatagrams
  -- the source port in the datagram is still 68
  have hbytes : (Relay.relayToDhcpServer clientRequest.cfg clientRequest.host
      clientRequest.r).toOption.map (fun r => r.sent.map fun d => (d.bytes.length, d.packet 21))
      = some [(272, 68)] := by decide +kernel
  rw [hrun] at hbytes
  have hcells : r'.sent.map (fun d => (d.bytes.length, d.packet 21)) = [(272, 68)] :=
    Option.some.inj hbytes
  rw [hds, List.map_cons, List.cons.injEq, Prod.mk.injEq] at hcells
  have hport := hd.uhSport 1 (by decide +kernel) (by rw [hcells.1.1]; decide +kernel)
  have hexpected : d.packet 21 = 67 := hport
  rw [hcells.1.2] at hexpected
  exact absurd hexpected (by decide)

end Udpfwd
end IpApps
