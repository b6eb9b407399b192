import IpApps.Udpfwd.ReceivedBytes

/-!
# Bytes that were not received show

Where what decides about a packet was received, but something that is sent of it or that its
checksum is taken over was neither received nor written by the daemon, there is a byte of it that
shows in the datagram: two buffers that differ there make two datagrams.
-/

namespace IpApps
namespace Udpfwd

open Memory Endian

/-! ## The loops over the servers -/

section loops

variable {host : Host} {size : ℕ} {ifName : CString} {bootpGw interfaceIp : IpAddress}
variable {p : NodePtr} {udpDport : UInt16} {ks : List ServerKey} {r : Relay} {pkt' : Packet}
variable {k l : ℕ}

theorem DiffersAt.sourced {pkt : Packet} (h : DiffersAt pkt pkt' l) (hl : 20 ≤ l) :
    DiffersAt (Relay.sourced interfaceIp pkt) (Relay.sourced interfaceIp pkt') l := by
  unfold Relay.sourced
  rw [← ipAt_agree h.agree (by decide) (by unfold ipSrcOff; omega)]
  split
  · apply h.store
    rw [length_ipBytes]
    unfold ipSrcOff
    omega
  · exact h

theorem DiffersAt.stampGiaddr {pkt : Packet} {dhcp : ℤ} (h : DiffersAt pkt pkt' l)
    (hdhcp : 0 ≤ dhcp) (hl : dhcp + giaddrOff + 4 ≤ l) :
    DiffersAt (Relay.stampGiaddr host ifName bootpGw interfaceIp dhcp pkt)
      (Relay.stampGiaddr host ifName bootpGw interfaceIp dhcp pkt') l := by
  unfold Relay.stampGiaddr
  rw [← ipAt_agree h.agree (by unfold giaddrOff; omega) hl]
  split
  · apply h.store
    rw [length_ipBytes]
    right
    exact hl
  · exact h

end loops

/-! ## Through option 82 processing -/

section option82

variable {c : Option82Call} {pkt : Packet} {s : Scan} {n l : ℕ}

end option82

/-! ## Two runs of the daemon -/

section runs

variable {cfg : FeatureConfig} {host : Host} {ifIndex : UInt32} {ifName : CString}
variable {p : NodePtr} {rounds n l : ℕ} {r : Relay} {pkt pkt' : Packet}

theorem sendReply_sent {nd : UdpfwdInterfaceNode} (ip : IpAddress)
    (hp : r.state.nodes p = some nd) :
    ∃ r' d, Relay.sendReply host ifIndex p ip r = .ok r' ∧ r'.sent = r.sent ++ [d] ∧
      d.bytes = slice (Relay.addressed r.pkt ip dhcpcPort) 0 (ntohs r.pkt ipLenOff) := by
  unfold Relay.sendReply
  simp only [Relay.sendPktThroughSocket]
  rw [State.count_eq _ hp]
  exact ⟨_, _, rfl, rfl, rfl⟩

end runs

/-! ## What has to be received -/

namespace Received

variable {x : Received}

end Received

end Udpfwd
end IpApps
