import IpApps.Lib.Memory
import IpApps.Lib.Endian
import IpApps.Libc

/-!
# The packet in the receive buffer

Addresses are offsets from the start of the receive buffer, where the IP header of the
received packet lies. What a buffer holds after the received bytes, and what lies before
and behind the buffer, has addresses too: the code follows lengths of the packet without
comparing them with the received size. The host is little-endian, so a field that the code
uses without `ntohs` is read with its low byte first.
-/

namespace IpApps
namespace Udpfwd

open Memory Endian

/-- The bytes the packet pointer reaches. -/
abbrev Packet := Mem UInt8

/-! ## Integers in memory -/

/-- A `uint16_t` as the host reads it. -/
def rawU16 (pkt : Packet) (a : ℤ) : ℕ := leVal (slice pkt a 2)

/-- `ntohs` of a `uint16_t`. -/
def ntohs (pkt : Packet) (a : ℤ) : ℕ := beVal (slice pkt a 2)

/-- An `s_addr`. -/
def ipAt (pkt : Packet) (a : ℤ) : IpAddress := UInt32.ofNat (leVal (slice pkt a 4))

/-- The bytes of a `uint16_t` the host writes. -/
def rawBytes (v : ℕ) : List UInt8 := leBytes 2 v

/-- The bytes of `htons (v)`. -/
def htonsBytes (v : ℕ) : List UInt8 := beBytes 2 v

/-- The bytes of an `s_addr`. -/
def ipBytes (ip : IpAddress) : List UInt8 := leBytes 4 ip.toNat

@[simp] theorem length_rawBytes (v : ℕ) : (rawBytes v).length = 2 := rfl

@[simp] theorem length_htonsBytes (v : ℕ) : (htonsBytes v).length = 2 := rfl

@[simp] theorem length_ipBytes (ip : IpAddress) : (ipBytes ip).length = 4 := rfl

theorem ntohs_lt (pkt : Packet) (a : ℤ) : ntohs pkt a < 2 ^ 16 := by
  have h := beVal_lt (slice pkt a 2)
  rwa [length_slice] at h

theorem ntohs_store_htonsBytes (pkt : Packet) (a : ℤ) {v : ℕ} (hv : v < 2 ^ 16) :
    ntohs (store pkt a (htonsBytes v)) a = v := by
  have hself := slice_store_self pkt a (htonsBytes v)
  rw [length_htonsBytes] at hself
  rw [ntohs, hself, htonsBytes, beVal_beBytes hv]

/-- The value of the four bytes of an address. -/
theorem ofNat_leVal_ipBytes (ip : IpAddress) : UInt32.ofNat (leVal (ipBytes ip)) = ip := by
  rw [ipBytes, leVal_leBytes ip.toNat_lt, UInt32.ofNat_toNat]

theorem ipAt_store_ipBytes (pkt : Packet) (a : ℤ) (ip : IpAddress) :
    ipAt (store pkt a (ipBytes ip)) a = ip := by
  have hself := slice_store_self pkt a (ipBytes ip)
  rw [length_ipBytes] at hself
  rw [ipAt, hself, ofNat_leVal_ipBytes]

/-! ## The headers -/

/-- `UDPHDR_LENGTH`. -/
def udphdrLength : ℕ := 8

/-- `ip_hl`, the low half of the first byte. -/
def ipHl (pkt : Packet) : ℕ := (pkt 0).toNat % 16

/-- Where the UDP header starts. -/
def udph (pkt : Packet) : ℤ := (ipHl pkt * 4 : ℕ)

/-- Where the DHCP message starts. -/
def dhcp (pkt : Packet) : ℤ := udph pkt + udphdrLength

/-- `ip_len`, `ip_ttl`, `ip_sum`, `ip_src` and `ip_dst` in the IP header. -/
def ipLenOff : ℤ := 2
def ipTtlOff : ℤ := 8
def ipSumOff : ℤ := 10
def ipSrcOff : ℤ := 12
def ipDstOff : ℤ := 16

/-- `uh_sport`, `uh_dport`, `uh_ulen` and `uh_sum` in the UDP header. -/
def uhSportOff : ℤ := 0
def uhDportOff : ℤ := 2
def uhUlenOff : ℤ := 4
def uhSumOff : ℤ := 6

/-- The fields of `struct dhcp_packet` the daemon uses. -/
def opOff : ℤ := 0
def htypeOff : ℤ := 1
def hlenOff : ℤ := 2
def hopsOff : ℤ := 3
def flagsOff : ℤ := 10
def ciaddrOff : ℤ := 12
def yiaddrOff : ℤ := 16
def giaddrOff : ℤ := 24
def chaddrOff : ℤ := 28
def snameOff : ℤ := 44
def fileOff : ℤ := 108
def optionsOff : ℤ := 236

/-- The BOOTP operation of the message. -/
def dhcpOp (pkt : Packet) : UInt8 := pkt (dhcp pkt + opOff)

/-- The relay agent address of the message. -/
def giaddr (pkt : Packet) : IpAddress := ipAt pkt (dhcp pkt + giaddrOff)

/-- `BOOTREQUEST`. -/
def bootrequest : UInt8 := 1

/-- `BOOTREPLY`. -/
def bootreply : UInt8 := 2

/-- `DHCP_PKTLEN`, an `int`: negative if the UDP length does not cover the UDP header. -/
def dhcpPktlen (pkt : Packet) : ℤ := ntohs pkt (udph pkt + uhUlenOff) - udphdrLength

/-! ## The checksum -/

/-- The sum of the 16-bit words, a last odd byte counting as the low byte of a word. -/
def wordSum : List UInt8 → ℕ
  | [] => 0
  | [b] => b.toNat
  | lo :: hi :: rest => lo.toNat + 256 * hi.toNat + wordSum rest

/-- `in_cksum`. -/
def inCksum (pkt : Packet) (addr : ℤ) (len csum : ℕ) : ℕ :=
  let sum := csum + wordSum (slice pkt addr len)
  -- add back carry outs from top 16 bits to low 16 bits
  let sum := sum / 2 ^ 16 + sum % 2 ^ 16
  let sum := sum + sum / 2 ^ 16
  0xffff - sum % 2 ^ 16

/-- The headers are found by the first byte of the packet. -/
theorem udph_congr {pkt pkt' : Packet} (h : pkt 0 = pkt' 0) : udph pkt = udph pkt' := by
  unfold udph ipHl
  rw [h]

theorem dhcp_congr {pkt pkt' : Packet} (h : pkt 0 = pkt' 0) : dhcp pkt = dhcp pkt' := by
  rw [dhcp, dhcp, udph_congr h]

end Udpfwd
end IpApps
