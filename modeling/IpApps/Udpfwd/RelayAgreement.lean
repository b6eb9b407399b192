import IpApps.Lib.TwoRuns
import IpApps.Udpfwd.BroadcastForward
import IpApps.Udpfwd.CoveredBytes
import IpApps.Udpfwd.ProcessAgreement
import IpApps.Udpfwd.SearchAgreement

/-!
# Two packets on their way through the daemon

Relaying and forwarding two packets that agree up to some address: as long as no byte behind it
is read, the daemon sends the same datagrams and counts the same. The structures of this module
say what is read on each path.
-/

namespace IpApps
namespace Udpfwd

open Memory Endian ExceptLoops TwoRuns

/-! ## Sending -/

/-- The packets have the same header length and the same IP length. -/
structure SameHead (pkt pkt' : Packet) : Prop where
  first : pkt' 0 = pkt 0
  ipLen : slice pkt' ipLenOff 2 = slice pkt ipLenOff 2

/-- The checksum and the bytes that are sent lie within the first `n`. -/
structure SendWithin (pkt : Packet) (n : ℤ) : Prop where
  cksum : rawU16 pkt ipLenOff ≤ n
  sent : ntohs pkt ipLenOff ≤ n

section sending

variable {pkt pkt' pkt'' : Packet} {n : ℤ} {ip : IpAddress} {port : UInt16}

theorem SameHead.trans (h : SameHead pkt pkt') (h' : SameHead pkt' pkt'') : SameHead pkt pkt'' :=
  ⟨h'.first.trans h.first, h'.ipLen.trans h.ipLen⟩

theorem SameHead.udph_eq (h : SameHead pkt pkt') : udph pkt' = udph pkt := udph_congr h.first

theorem SameHead.rawU16_eq (h : SameHead pkt pkt') :
    rawU16 pkt' ipLenOff = rawU16 pkt ipLenOff := by
  rw [rawU16, rawU16, h.ipLen]

end sending

/-! ## The loops over the servers -/

/-- The relays differ in their packets at most: they sent the same, and they left the daemon in
the same state. -/
def Relay.Same (r r' : Relay) : Prop := r' = { r with pkt := r'.pkt }

/-- Two relays that differ in packets that agree up to `n`. -/
structure Relay.Twin (n : ℤ) (r r' : Relay) : Prop where
  agree : AgreeTo r.pkt r'.pkt n
  same : r.Same r'

section loops

variable {host : Host} {size : ℕ} {interfaceIp : IpAddress} {p : NodePtr} {n : ℤ}
variable {r r' : Relay} {pkt' : Packet}

/-- A loop keeps twins if its rounds do, and if they keep the head of the packet. -/
theorem Relay.Twin.foldl {round : Relay → ServerKey → Relay} {pkt : Packet} {ks : List ServerKey}
    (hround : ∀ (r : Relay) (pkt' : Packet), ∀ k ∈ ks, SameHead pkt r.pkt → AgreeTo r.pkt pkt' n →
      (round r k).Twin n (round { r with pkt := pkt' } k) ∧ SameHead r.pkt (round r k).pkt)
    (h : r.Twin n r') (hhead : SameHead pkt r.pkt) :
    (ks.foldl round r).Twin n (ks.foldl round r') := by
  induction ks generalizing r r' with
  | nil => exact h
  | cons k ks ih =>
    rw [List.foldl_cons, List.foldl_cons]
    obtain ⟨hnext, hkept⟩ := hround r r'.pkt k List.mem_cons_self hhead h.agree
    rw [← h.same] at hnext
    exact ih (fun r pkt' k' hk' => hround r pkt' k' (List.mem_cons_of_mem k hk')) hnext
      (hhead.trans hkept)

end loops

/-! ## Requests -/

section requests

variable {cfg : FeatureConfig} {host : Host} {ifName : CString} {bootpGw interfaceIp : IpAddress}
variable {p : NodePtr} {n : ℤ} {r : Relay} {pkt pkt' : Packet}

/-- What is sent of a request lies within the first `n` bytes, or is written by the daemon, and so
does what the checksum is taken over. -/
structure RequestSent (c : Option82Call) (pkt : Packet) (n : ℤ) : Prop where
  left : c.LeavesRequest pkt → SendWithin pkt n
  rewritten : ∀ s, c.Ends pkt s → s.isDhcp = true → c.OptionsWithin (dhcp pkt) s n ∧
    (leVal (htonsBytes (c.newLength (dhcp pkt) s + udphdrLength + ipHl pkt * 4)) : ℤ)
      ≤ max n (c.writtenEnd (dhcp pkt) s)

theorem ntohs_of_htonsBytes {a : ℤ} {v : ℕ} (h : slice pkt a 2 = htonsBytes v) :
    ntohs pkt a ≤ v := by
  have hlow : beVal (htonsBytes v) = v % 256 ^ 2 := beVal_beBytes_mod 2 v
  rw [ntohs, h, hlow]
  exact Nat.mod_le _ _

/-- A request that goes on is sent from bytes that agree. -/
theorem RequestSent.agrees {c : Option82Call} (h : RequestSent c pkt n)
    (hwithin : Option82Within c pkt n) (hagree : AgreeTo pkt pkt' n) (hmax : n < 2 ^ 31)
    (hudph : 20 ≤ udph pkt) (hop : dhcpOp pkt = bootrequest)
    (hne : (c.process pkt).result ≠ .dropped) :
    ∃ m, n ≤ m ∧ SendWithin (c.process pkt).pkt m ∧
      AgreeTo (c.process pkt).pkt (c.process pkt').pkt m := by
  have hwhere : dhcp pkt = udph pkt + 8 := rfl
  -- a request that goes on has been left as it came, or is rewritten
  rcases process_request hne with hleft | ⟨s, hends, hdhcp⟩
  · refine ⟨n, Int.le_refl n, ?_, (process_twin hagree hwithin).2.1⟩
    rw [(hleft.process hop).2]
    exact h.left hleft
  · obtain ⟨hoptions, hcksum⟩ := h.rewritten s hends hdhcp
    obtain ⟨hfront, happend, -, -⟩ := scanOptions_behind hends.scan
    have hfit : s.appendPtr < 2 ^ 31 := Int.lt_of_le_of_lt hoptions.options hmax
    have hrequest : s.pkt (dhcp pkt + opOff) = bootrequest := hends.reached.op.trans hop
    have hlen := @finish_ipLen c (dhcp pkt) s hdhcp hrequest (by omega) happend hfit
    have hhl : ipHl s.pkt = ipHl pkt := by
      unfold ipHl
      rw [hfront 0 (by unfold optionsStart; omega)]
    rw [hhl] at hlen
    refine ⟨_, le_max_left n (c.writtenEnd (dhcp pkt) s), ?_,
      (rewritten_twin hagree hmax hudph hwithin hop hends hdhcp hfit).1 hoptions⟩
    rw [hends.process]
    constructor
    · rw [rawU16, hlen]
      exact hcksum
    · have hle := ntohs_of_htonsBytes hlen
      have hudp : udph pkt = (ipHl pkt * 4 : ℕ) := rfl
      unfold Option82Call.writtenEnd
      unfold udphdrLength at hle
      omega

end requests

/-! ## Replies -/

section replies

variable {cfg : FeatureConfig} {host : Host} {ifIndex : UInt32} {ifName : CString}
variable {p : NodePtr} {n : ℤ} {r : Relay} {pkt pkt' : Packet} {rounds : ℕ}

end replies

end Udpfwd
end IpApps
