import IpApps.Lib.ExceptLoops
import IpApps.Udpfwd.Xmit

/-!
# What relaying a request changes in it

Relaying touches the IP and UDP headers, the hop count and the agent address. From the
agent address on, every datagram that is sent holds what option 82 processing and the
stamping of the agent address left.
-/

namespace IpApps
namespace Udpfwd

open Memory Endian ExceptLoops

/-! ## Frames -/

section frames

variable {pkt : Packet} {a : ℤ}

theorem udph_nonneg (pkt : Packet) : 0 ≤ udph pkt := Int.natCast_nonneg _

/-- The cells neither the headers nor the hop count lie in: the first byte, which says where
the headers are, and everything from the agent address on. -/
def Kept (dhcp a : ℤ) : Prop := a = 0 ∨ dhcp + giaddrOff ≤ a

theorem correctPort_first : Relay.correctPort pkt 0 = pkt 0 := by
  unfold Relay.correctPort
  split
  · rename_i hport
    apply store_of_lt
    -- with the UDP header at address 0 the first byte would be 68, which puts it elsewhere
    by_contra hzero
    have hudph : udph pkt = 0 := by
      have hpos := udph_nonneg pkt
      unfold uhSportOff at hzero
      omega
    have hlow : (pkt 0).toNat = 68 := by
      have hlt := (pkt 0).toNat_lt
      rw [hudph, rawU16, slice_succ, slice_succ, slice_zero] at hport
      simp only [leVal, uhSportOff, dhcpcPort, add_zero] at hport
      have hval : (pkt 0).toNat + 256 * (pkt (0 + 1)).toNat = 68 := by simpa using hport
      omega
    unfold udph ipHl at hudph
    omega
  · rfl

theorem correctPort_kept (ha : Kept (dhcp pkt) a) : Relay.correctPort pkt a = pkt a := by
  cases ha with
  | inl hzero =>
    rw [hzero]
    exact correctPort_first
  | inr hge =>
    unfold Relay.correctPort
    split
    · apply store_of_ge
      unfold dhcp udphdrLength giaddrOff at hge
      simp only [uhSportOff, length_rawBytes]
      omega
    · rfl

theorem addToByte_kept {b : ℤ} (hne : a ≠ b) (d : UInt8) :
    Relay.addToByte pkt b d a = pkt a := by
  apply store_outside
  simp only [List.length_singleton]
  omega

theorem countHop_kept (cfg : FeatureConfig) (ha : Kept (dhcp pkt) a) :
    Relay.countHop cfg pkt a = pkt a := by
  have hpos := udph_nonneg pkt
  unfold Kept dhcp udphdrLength giaddrOff at ha
  unfold Relay.countHop
  rw [addToByte_kept (by unfold ipTtlOff; omega)]
  split
  · exact addToByte_kept (by unfold dhcp udphdrLength hopsOff; omega) 1
  · rfl

/-- The cells that `udpfwd_send_pkt_through_socket` sets: the checksum and the destination of
IP, the destination port and the checksum of UDP. -/
def AddressedCell (udph a : ℤ) : Prop :=
  (ipSumOff ≤ a ∧ a < ipSrcOff) ∨ (ipDstOff ≤ a ∧ a < ipDstOff + 4) ∨
    (udph + uhDportOff ≤ a ∧ a < udph + uhUlenOff) ∨
    (udph + uhSumOff ≤ a ∧ a < udph + udphdrLength)

theorem addressed_outside (sinAddr : IpAddress) (sinPort : UInt16)
    (ha : ¬AddressedCell (udph pkt) a) : Relay.addressed pkt sinAddr sinPort a = pkt a := by
  unfold AddressedCell ipSumOff ipSrcOff ipDstOff uhDportOff uhUlenOff uhSumOff udphdrLength at ha
  unfold Relay.addressed
  rw [store_outside, store_outside, store_outside, store_outside]
  · simp only [ipDstOff, length_ipBytes]
    omega
  · simp only [uhDportOff, length_htonsBytes]
    omega
  · simp only [ipSumOff, length_rawBytes]
    omega
  · simp only [uhSumOff, List.length_cons, List.length_nil]
    omega

theorem addressed_kept (sinAddr : IpAddress) (sinPort : UInt16) (ha : Kept (dhcp pkt) a) :
    Relay.addressed pkt sinAddr sinPort a = pkt a := by
  have hpos := udph_nonneg pkt
  unfold Kept dhcp udphdrLength giaddrOff at ha
  apply addressed_outside
  unfold AddressedCell ipSumOff ipSrcOff ipDstOff uhDportOff uhUlenOff uhSumOff udphdrLength
  omega

/-- The IP header of a packet ends in front of its ports. -/
theorem addressed_dst (sinAddr : IpAddress) (sinPort : UInt16) (hudph : 20 ≤ udph pkt) :
    slice (Relay.addressed pkt sinAddr sinPort) ipDstOff 4 = ipBytes sinAddr := by
  unfold Relay.addressed
  rw [slice_store_outside, slice_store_outside, slice_store_outside]
  · exact slice_store_self pkt ipDstOff (ipBytes sinAddr)
  · unfold ipDstOff uhDportOff
    omega
  · unfold ipDstOff ipSumOff
    rw [length_rawBytes]
    omega
  · unfold ipDstOff uhSumOff
    omega

theorem addressed_dport (sinAddr : IpAddress) (sinPort : UInt16) (hudph : 20 ≤ udph pkt) :
    slice (Relay.addressed pkt sinAddr sinPort) (udph pkt + uhDportOff) 2
      = htonsBytes sinPort.toNat := by
  unfold Relay.addressed
  rw [slice_store_outside, slice_store_outside]
  · exact slice_store_self _ (udph pkt + uhDportOff) (htonsBytes sinPort.toNat)
  · unfold uhDportOff ipSumOff
    rw [length_rawBytes]
    omega
  · unfold uhDportOff uhSumOff
    omega

end frames

/-- Counting changes nothing else about the node. -/
theorem State.nodes_count {s s' : State} {p : NodePtr} {n : UdpfwdInterfaceNode}
    {f : DhcpRelayPktCounter → DhcpRelayPktCounter} (hn : s.nodes p = some n)
    (h : s.count p f = .ok s') :
    s'.nodes p = some { n with dhcpRelayPktCounters := f n.dhcpRelayPktCounters } := by
  unfold State.count at h
  rw [State.node_eq_ok _ hn, ok_bind] at h
  cases h
  exact Function.update_self _ _ _

/-! ## The datagrams -/

/-- The bytes of a datagram, addressed as the packet they come from. -/
def Datagram.packet (d : Datagram) : Packet := fun a => d.bytes[a.toNat]?.getD 0

theorem slice_packet {d : Datagram} {pkt : Packet} {size n : ℕ} {a : ℤ}
    (hbytes : d.bytes = slice pkt 0 size) (ha : 0 ≤ a) (hn : a + n ≤ size) :
    slice d.packet a n = slice pkt a n := by
  apply slice_congr
  intro i hi
  have hlt : (a + i).toNat < size := by omega
  rw [Datagram.packet, hbytes, getElem?_slice _ hlt, Option.getD_some]
  congr 1
  omega

/-- A packet being relayed agrees with `pkt` in the kept cells, and so do the datagrams that
were sent. -/
structure Carries (dhcp : ℤ) (pkt : Packet) (r : Relay) : Prop where
  kept : ∀ a, Kept dhcp a → r.pkt a = pkt a
  sent : ∀ d ∈ r.sent, ∃ pkt' size, d.bytes = slice pkt' 0 size ∧ size < 2 ^ 16 ∧
    ∀ a, Kept dhcp a → pkt' a = pkt a

section relay

variable {cfg : FeatureConfig} {host : Host} {r r' : Relay} {pkt : Packet} {p : NodePtr}

/-- A round of the server loop. -/
theorem Carries.relayToServer {size iter : ℕ} {interfaceIp : IpAddress}
    (hsize : size < 2 ^ 16) (h : Carries (dhcp pkt) pkt r)
    (hround : Relay.relayToServer host size interfaceIp p r iter = .ok r') :
    Carries (dhcp pkt) pkt r' := by
  unfold Relay.relayToServer at hround
  obtain ⟨n, -, hround⟩ := bind_eq_ok hround
  obtain ⟨server, -, hround⟩ := bind_eq_ok hround
  split at hround
  · cases hround
    exact h
  · simp only at hround
    obtain ⟨state, -, hround⟩ := bind_eq_ok hround
    cases hround
    have hpos := udph_nonneg pkt
    -- the source and destination addresses are no part of what is kept
    have hsrc : ∀ a, Kept (dhcp pkt) a →
        (if ipAt r.pkt ipSrcOff = 0 then store r.pkt ipSrcOff (ipBytes interfaceIp)
          else r.pkt) a = pkt a := by
      intro a ha
      split
      · rw [store_outside, h.kept a ha]
        unfold Kept dhcp udphdrLength giaddrOff at ha
        simp only [ipSrcOff, length_ipBytes]
        omega
      · exact h.kept a ha
    have hnew : ∀ a, Kept (dhcp pkt) a →
        Relay.addressed (if ipAt r.pkt ipSrcOff = 0 then
          store r.pkt ipSrcOff (ipBytes interfaceIp) else r.pkt) server.ipAddress dhcpsPort a
          = pkt a := by
      intro a ha
      have hdhcp := dhcp_congr (hsrc 0 (Or.inl rfl))
      rw [addressed_kept _ _ (by rw [hdhcp]; exact ha), hsrc a ha]
    refine ⟨hnew, ?_⟩
    intro d hd
    cases List.mem_append.mp hd with
    | inl hold => exact h.sent d hold
    | inr hlast =>
      rw [List.mem_singleton.mp hlast]
      exact ⟨_, size, rfl, hsize, hnew⟩

/-- What is sent after option 82 processing carries the stamped packet. -/
theorem Carries.relayToServers {ifName : CString} {interfaceIp bootpGw : IpAddress}
    {n : UdpfwdInterfaceNode} (hn : r.state.nodes p = some n) (hgw : n.bootpGw = bootpGw)
    (hsent : r.sent = [])
    (hdhcp : dhcp (Relay.stampGiaddr host ifName bootpGw interfaceIp (dhcp pkt) r.pkt)
      = dhcp pkt)
    (h : Relay.relayToServers host ifName interfaceIp p (dhcp pkt) r = .ok r') :
    Carries (dhcp pkt)
      (Relay.stampGiaddr host ifName bootpGw interfaceIp (dhcp pkt) r.pkt) r' := by
  unfold Relay.relayToServers at h
  rw [State.node_eq_ok _ hn, ok_bind] at h
  simp only [hgw] at h
  generalize Relay.stampGiaddr host ifName bootpGw interfaceIp (dhcp pkt) r.pkt = stamped at *
  rw [← hdhcp]
  refine foldlM_preserves (P := Carries (dhcp stamped) stamped) ?_ ?_ h
  · intro c iter c' hc hround
    exact hc.relayToServer (ntohs_lt _ _) hround
  · exact ⟨fun a _ => rfl, fun d hd => by rw [hsent] at hd; exact absurd hd (List.not_mem_nil)⟩

end relay

end Udpfwd
end IpApps
