import Mathlib.Logic.Function.Basic
import IpApps.Udpfwd.PacketAgreement
import IpApps.Udpfwd.RelayRequest

/-!
# What the checksum covers

The IP checksum of a datagram is taken over as many bytes as the IP length says in the wrong byte
order. Every one of them can be told from the checksum, so a byte shows in a datagram if it is sent
or if it is the last one under the checksum.
-/

namespace IpApps
namespace Udpfwd

open Memory Endian

section checksum

variable {pkt pkt' : Packet} {ip : IpAddress} {port : UInt16} {l : ℕ}

theorem wordSum_concat (xs : List UInt8) (b : UInt8) : wordSum (xs ++ [b])
    = wordSum xs + if xs.length % 2 = 0 then b.toNat else 256 * b.toNat := by
  fun_induction wordSum xs with
  | case1 => simp [wordSum]
  | case2 lo => simp [wordSum]
  | case3 lo hi rest ih =>
    have hparity : (lo :: hi :: rest).length % 2 = rest.length % 2 := by
      rw [List.length_cons, List.length_cons]
      omega
    rw [List.cons_append, List.cons_append, wordSum, ih, hparity]
    omega

theorem wordSum_le (xs : List UInt8) : wordSum xs ≤ 65535 * xs.length := by
  fun_induction wordSum xs with
  | case1 => exact Nat.le_refl 0
  | case2 lo =>
    have hlo := lo.toNat_lt
    rw [List.length_singleton]
    omega
  | case3 lo hi rest ih =>
    have hlo := lo.toNat_lt
    have hhi := hi.toNat_lt
    rw [List.length_cons, List.length_cons]
    omega

/-- Two carries fold a sum to 16 bits, and leave it the same up to multiples of 65535. -/
theorem folded_eq {q t : ℕ} (hq : q < 2 ^ 16) (ht : t < 2 ^ 16) :
    (q + t + (q + t) / 2 ^ 16) % 2 ^ 16 = q + t
      ∨ (q + t + (q + t) / 2 ^ 16) % 2 ^ 16 + 65535 = q + t := by
  by_cases hcarry : q + t < 2 ^ 16
  · left
    rw [Nat.div_eq_of_lt hcarry, add_zero, Nat.mod_eq_of_lt hcarry]
  · right
    have hone : (q + t) / 2 ^ 16 = 1 := by omega
    rw [hone]
    omega

/-- The carries are added back, so the checksum makes the sum a multiple of 65535. -/
theorem inCksum_add_wordSum {len : ℕ} (hlen : len < 2 ^ 16) :
    (inCksum pkt 0 len 0 + wordSum (slice pkt 0 len)) % 65535 = 0 := by
  have hle := wordSum_le (slice pkt 0 len)
  rw [length_slice] at hle
  unfold inCksum
  simp only [zero_add]
  generalize wordSum (slice pkt 0 len) = s at hle ⊢
  have hcarry : s / 2 ^ 16 < 2 ^ 16 := by omega
  have hlow : s % 2 ^ 16 < 2 ^ 16 := by omega
  have hparts : s = 65535 * (s / 2 ^ 16) + (s / 2 ^ 16 + s % 2 ^ 16) := by omega
  have hfolded := folded_eq hcarry hlow
  have hfit : (s / 2 ^ 16 + s % 2 ^ 16 + (s / 2 ^ 16 + s % 2 ^ 16) / 2 ^ 16) % 2 ^ 16 < 2 ^ 16 :=
    Nat.mod_lt _ (by decide)
  generalize (s / 2 ^ 16 + s % 2 ^ 16 + (s / 2 ^ 16 + s % 2 ^ 16) / 2 ^ 16) % 2 ^ 16 = folded at *
  generalize s / 2 ^ 16 = q at *
  generalize s % 2 ^ 16 = t at *
  omega

/-- Packets with one checksum have one sum, up to multiples of 65535. -/
theorem inCksum_mod {len : ℕ} (hlen : len < 2 ^ 16)
    (h : inCksum pkt 0 len 0 = inCksum pkt' 0 len 0) :
    wordSum (slice pkt 0 len) % 65535 = wordSum (slice pkt' 0 len) % 65535 := by
  have hleft := @inCksum_add_wordSum pkt _ hlen
  have hright := @inCksum_add_wordSum pkt' _ hlen
  rw [← h] at hright
  generalize inCksum pkt 0 len 0 = c at *
  omega

/-- Another last byte gives another checksum. -/
theorem inCksum_ne (hl : l + 1 < 2 ^ 16) (h : AgreeTo pkt pkt' l) (hlast : pkt' l = pkt l + 1) :
    inCksum pkt 0 (l + 1) 0 ≠ inCksum pkt' 0 (l + 1) 0 := by
  intro heq
  have hmod := inCksum_mod hl heq
  have hcells : slice pkt 0 l = slice pkt' 0 l := h.slice (Int.le_refl 0) (by omega)
  have hone : ∀ m : Packet, slice m 0 (l + 1) = slice m 0 l ++ [m l] := by
    intro m
    rw [slice_add, slice_succ, slice_zero, zero_add]
  rw [hone, hone, wordSum_concat, wordSum_concat, length_slice, length_slice, ← hcells, hlast]
    at hmod
  have hb := (pkt l).toNat_lt
  have hnext : (pkt l + 1).toNat = ((pkt l).toNat + 1) % 256 := by
    rw [UInt8.toNat_add]
    rfl
  rw [hnext] at hmod
  split at hmod <;> omega

/-- Setting the destination leaves the IP length. -/
theorem ipLen_destination {udph : ℤ} (hudph : 20 ≤ udph) :
    rawU16 (store (store pkt ipDstOff (ipBytes ip)) (udph + uhDportOff) (htonsBytes port.toNat))
      ipLenOff = rawU16 pkt ipLenOff := by
  rw [rawU16, slice_store_outside _ (Or.inl (by unfold ipLenOff uhDportOff; omega)),
    slice_store_outside _ (Or.inl (by decide))]
  rfl

end checksum

/-! ## Datagrams -/

section datagrams

variable {pkt pkt' : Packet} {ip : IpAddress} {port : UInt16} {k l : ℕ}

/-- The packets agree in front of the byte `l`, which the second one has one higher. -/
structure DiffersAt (pkt pkt' : Packet) (l : ℕ) : Prop where
  agree : AgreeTo pkt pkt' l
  last : pkt' l = pkt l + 1

theorem DiffersAt.store {a : ℤ} {xs : List UInt8} (h : DiffersAt pkt pkt' l)
    (hout : (l : ℤ) < a ∨ a + xs.length ≤ l) :
    DiffersAt (Memory.store pkt a xs) (Memory.store pkt' a xs) l where
  agree := h.agree.store a xs
  last := by
    rw [store_outside pkt' hout, store_outside pkt hout, h.last]

end datagrams

end Udpfwd
end IpApps
