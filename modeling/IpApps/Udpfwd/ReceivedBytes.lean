import IpApps.Udpfwd.RelayAgreement

/-!
# Only received bytes matter

A packet is processed in a buffer that still holds what came before it, and memory goes on behind
the buffer. As long as what decides about the packet, what is sent of it and what its checksum is
taken over was received, neither makes a difference. As a rule the checksum is taken over more: it
covers as many bytes as the IP length says in the wrong byte order.
-/

namespace IpApps
namespace Udpfwd

open Memory TwoRuns

/-- A packet as the receiver thread hands it on: `size` bytes in a buffer that takes no more
than `RECV_BUFFER_SIZE - 1`. IP delivers no packet with a header of fewer than five words. -/
structure Received where
  cfg : FeatureConfig
  host : Host
  size : ℕ
  r : Relay
  headers : 5 ≤ ipHl r.pkt
  fits : size < recvBufferSize
  linked : Linked r.state

namespace Received

variable (x : Received)

/-- The destination port. -/
def dport : UInt16 := UInt16.ofNat (ntohs x.r.pkt (udph x.r.pkt + uhDportOff))

/-- The packet is for one of the DHCP ports. -/
def ForDhcp : Prop := x.dport = dhcpsPort ∨ x.dport = dhcpcPort

/-- The packet is for one of the DHCP ports, and relaying is enabled. -/
def ForRelay : Prop := x.ForDhcp ∧ x.cfg.enabled .dhcpRelay = true

/-- The packet is a request to relay. -/
def IsRequest : Prop := x.ForRelay ∧ dhcpOp x.r.pkt = bootrequest

/-- The packet is a reply to relay. -/
def IsReply : Prop :=
  x.ForRelay ∧ dhcpOp x.r.pkt = bootreply ∧ ipAt x.r.pkt ipDstOff ≠ ipAddressBcast

/-- What `udpfwd_ctrl` makes of the received bytes, with `pkt` for what is in the buffer. -/
def ctrl (rounds : ℕ) (pkt : Packet) : Except Fault Relay :=
  Relay.udpfwdCtrl rounds x.cfg x.host x.size { x.r with pkt }

/-- What others see of the daemon: the datagrams, the ARP entries and the state. -/
def seen (r : Relay) : List Datagram × List ArpReq × State := (r.sent, r.arpReqs, r.state)

variable {x} {pkt' : Packet} {rounds : ℕ}

theorem udph_ge : 20 ≤ udph x.r.pkt := by
  have hheaders := x.headers
  unfold udph
  omega

end Received

end Udpfwd
end IpApps
