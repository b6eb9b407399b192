import IpApps.Lib.ExceptLoops
import IpApps.Udpfwd.HeaderChecksum

/-!
# The sums of `in_cksum`

`in_cksum` adds in an `int32_t`, where an addition that overflows has no meaning. A packet of at
most 65535 bytes stays below the limit, so the two rounds of carries at the end leave the
ones-complement sum of the words, and the function returns its complement.
-/

namespace IpApps
namespace Udpfwd

open Memory Endian OnesComplement ExceptLoops

/-! ## The function in 32 bits -/

/-- An addition of `int32_t`s that does not fit. -/
inductive SignedOverflow
  | overflow
deriving DecidableEq, Repr

/-- Addition of `int32_t`s. -/
def addInt32 (a b : ℤ) : Except SignedOverflow ℤ :=
  if -2 ^ 31 ≤ a + b ∧ a + b < 2 ^ 31 then .ok (a + b) else .error .overflow

/-- The loop of `in_cksum` over the words from `w` on, and the odd byte behind them. -/
def addWords (pkt : Packet) : (w : ℤ) → (nleft : ℕ) → (sum : ℤ) → Except SignedOverflow ℤ
  | w, nleft + 2, sum => do
    let sum ← addInt32 sum (rawU16 pkt w)
    addWords pkt (w + 2) nleft sum
  -- mop up an odd byte, if necessary
  | w, 1, sum => addInt32 sum (pkt w).toNat
  | _, 0, sum => .ok sum

/-- `in_cksum` in the integers of the source. -/
def inCksumInt32 (pkt : Packet) (addr : ℤ) (len : ℕ) (csum : UInt16) :
    Except SignedOverflow UInt16 := do
  let sum ← addWords pkt addr len csum.toNat
  -- add back carry outs from top 16 bits to low 16 bits
  let sum ← addInt32 (sum / 2 ^ 16) (sum % 2 ^ 16)
  let sum ← addInt32 sum (sum / 2 ^ 16)
  -- truncate to 16 bits
  .ok (UInt16.ofInt (~~~sum))

/-- The Internet checksum of a byte string, with the words in the byte order of the host. -/
def internetChecksum (csum : UInt16) (bytes : List UInt8) : UInt16 :=
  ~~~UInt16.ofNat (sum (2 ^ 16) (csum.toNat :: leWords bytes))

section

variable {pkt : Packet} {addr : ℤ} {len : ℕ} {csum : UInt16}

/-! ## The accumulator -/

theorem addInt32_eq {a b : ℤ} (hlow : 0 ≤ a + b) (hhigh : a + b < 2 ^ 31) :
    addInt32 a b = .ok (a + b) := if_pos ⟨by omega, hhigh⟩

/-- The two bytes of a word and the bytes behind it. -/
theorem slice_word (w : ℤ) (n : ℕ) :
    slice pkt w (n + 2) = pkt w :: pkt (w + 1) :: slice pkt (w + 2) n := by
  rw [slice_succ, slice_succ, add_assoc]
  rfl

theorem rawU16_eq (w : ℤ) : rawU16 pkt w = (pkt w).toNat + 256 * (pkt (w + 1)).toNat := by
  show leVal (slice pkt w (0 + 2)) = _
  rw [slice_word]
  rfl

/-- No addition of the loop overflows if the total does not: the words are not negative. -/
theorem addWords_eq {w sum : ℤ} {nleft : ℕ} (hlow : 0 ≤ sum)
    (hhigh : sum + wordSum (slice pkt w nleft) < 2 ^ 31) :
    addWords pkt w nleft sum = .ok (sum + wordSum (slice pkt w nleft)) := by
  fun_induction addWords pkt w nleft sum with
  | case1 w nleft sum ih =>
    have hword : wordSum (slice pkt w (nleft + 2))
        = rawU16 pkt w + wordSum (slice pkt (w + 2) nleft) := by
      rw [slice_word, wordSum, rawU16_eq]
    rw [hword] at hhigh ⊢
    rw [addInt32_eq (by omega) (by omega)]
    show addWords pkt (w + 2) nleft (sum + rawU16 pkt w) = _
    rw [ih _ (by omega) (by omega), add_assoc]
    rfl
  | case2 w sum =>
    have hbyte : wordSum (slice pkt w 1) = (pkt w).toNat := by
      rw [slice_succ]
      rfl
    rw [hbyte] at hhigh ⊢
    exact addInt32_eq (by omega) hhigh
  | case3 w sum =>
    show Except.ok sum = .ok (sum + 0)
    rw [add_zero]

/-- An odd byte counts as a byte only: 65535 bytes are less than 32768 words. -/
theorem wordSum_le_words (bs : List UInt8) :
    wordSum bs ≤ 65535 * (bs.length / 2) + 255 * (bs.length % 2) := by
  fun_induction wordSum bs with
  | case1 => exact Nat.le_refl 0
  | case2 b =>
    have hb := b.toNat_lt
    rw [List.length_singleton]
    omega
  | case3 lo hi rest ih =>
    have hlo := lo.toNat_lt
    have hhi := hi.toNat_lt
    rw [List.length_cons, List.length_cons]
    omega

/-- The largest total, 65535 bytes of ones and a start of ones, is 32513 below the limit. -/
theorem total_lt (hlen : len ≤ 65535) :
    (csum.toNat : ℤ) + wordSum (slice pkt addr len) < 2 ^ 31 := by
  have hcsum := csum.toNat_lt
  have hwords := wordSum_le_words (slice pkt addr len)
  rw [length_slice] at hwords
  omega

/-! ## The result -/

theorem words_lt (csum : UInt16) (bytes : List UInt8) :
    ∀ w ∈ csum.toNat :: leWords bytes, w < 2 ^ 16 := by
  rw [List.forall_mem_cons]
  exact ⟨csum.toNat_lt, leWords_lt bytes⟩

theorem sum_words_lt (csum : UInt16) (bytes : List UInt8) :
    sum (2 ^ 16) (csum.toNat :: leWords bytes) < 2 ^ 16 :=
  sum_lt (by decide) (words_lt csum bytes)

theorem not_ofNat {v : ℕ} (hv : v < 2 ^ 16) :
    ~~~UInt16.ofNat v = UInt16.ofNat (0xffff - v) := by
  apply UInt16.toNat_inj.mp
  rw [UInt16.toNat_not, UInt16.toNat_ofNat', UInt16.toNat_ofNat', Nat.mod_eq_of_lt hv,
    Nat.mod_eq_of_lt (by omega)]
  rfl

/-- Truncation keeps the complement of the low 16 bits. -/
theorem ofInt_not (v : ℕ) : UInt16.ofInt (~~~(v : ℤ)) = UInt16.ofNat (0xffff - v % 2 ^ 16) := by
  have hneg : (~~~(v : ℤ)) % 2 ^ 16 = 2 ^ 16 - 1 - v % 2 ^ 16 :=
    Int.negSucc_emod v (by decide)
  have hlow : (2 ^ 16 - 1 - (v : ℤ) % 2 ^ 16).toNat = 0xffff - v % 2 ^ 16 := by omega
  rw [UInt16.ofInt, hneg, hlow]

/-- The function in 32 bits computes what the sums without bounds give. -/
theorem inCksumInt32_eq_inCksum (hlen : len ≤ 65535) :
    inCksumInt32 pkt addr len csum = .ok (UInt16.ofNat (inCksum pkt addr len csum.toNat)) := by
  have htotal := @total_lt pkt addr len csum hlen
  have hloop := addWords_eq (Int.natCast_nonneg csum.toNat) htotal
  unfold inCksumInt32 inCksum
  dsimp only
  rw [hloop, ok_bind]
  generalize wordSum (slice pkt addr len) = words at htotal ⊢
  generalize hs : csum.toNat + words = s
  rw [← Nat.cast_add, hs, addInt32_eq (by omega) (by omega), ok_bind]
  -- the sum of the halves, again a natural number
  generalize hfirst : s / 2 ^ 16 + s % 2 ^ 16 = first
  have hhalves : (s : ℤ) / 2 ^ 16 + s % 2 ^ 16 = first := by omega
  rw [hhalves, addInt32_eq (by omega) (by omega), ok_bind]
  generalize hsecond : first + first / 2 ^ 16 = second
  have hcarry : (first : ℤ) + first / 2 ^ 16 = second := by omega
  rw [hcarry, ofInt_not]

/-- The two rounds of `in_cksum` are all it takes. -/
theorem inCksum_eq_sum (hlen : len ≤ 65535) : inCksum pkt addr len csum.toNat
    = 0xffff - sum (2 ^ 16) (csum.toNat :: leWords (slice pkt addr len)) := by
  have htotal := @total_lt pkt addr len csum hlen
  have hwords := words_lt csum (slice pkt addr len)
  have hsum : (csum.toNat :: leWords (slice pkt addr len)).sum
      = csum.toNat + wordSum (slice pkt addr len) := by
    rw [List.sum_cons, wordSum_eq]
  have hsquare : csum.toNat + wordSum (slice pkt addr len) < 2 ^ 16 * 2 ^ 16 := by omega
  have hfolded := foldCarry_foldCarry_lt (by decide) hsquare
  rw [← foldCarry_foldCarry_eq_sum (by decide) hwords (by rwa [hsum]), hsum,
    ← add_div_mod_eq_foldCarry hfolded]
  rfl

theorem inCksumInt32_eq (hlen : len ≤ 65535) :
    inCksumInt32 pkt addr len csum = .ok (internetChecksum csum (slice pkt addr len)) := by
  have hlt := sum_words_lt csum (slice pkt addr len)
  rw [inCksumInt32_eq_inCksum hlen, inCksum_eq_sum hlen, internetChecksum, not_ofNat hlt]

/-! ## Properties of the checksum -/

theorem toNat_internetChecksum (csum : UInt16) (bytes : List UInt8) :
    (internetChecksum csum bytes).toNat
      = 0xffff - sum (2 ^ 16) (csum.toNat :: leWords bytes) := by
  have hlt := sum_words_lt csum bytes
  rw [internetChecksum, UInt16.toNat_not, UInt16.toNat_ofNat', Nat.mod_eq_of_lt hlt]
  rfl

/-- The checksum of bytes in which a word became as large as the checksum of the others: the sum
is the last word, which is a zero but not 0. -/
theorem internetChecksum_filled {bytes filled : List UInt8}
    (h : (leWords filled).sum = (leWords bytes).sum + (internetChecksum 0 bytes).toNat) :
    internetChecksum 0 filled = 0 := by
  have hlt := sum_words_lt 0 bytes
  have hmod := @sum_mod (2 ^ 16) ((0 : UInt16).toNat :: leWords bytes) (by decide)
  have hzero := @sum_eq_zero_iff (2 ^ 16) ((0 : UInt16).toNat :: leWords bytes) (by decide)
  rw [toNat_internetChecksum] at h
  have hones : sum (2 ^ 16) ((0 : UInt16).toNat :: leWords filled) = 2 ^ 16 - 1 := by
    rw [sum_eq_last_iff (by decide) (words_lt 0 filled)]
    rw [List.sum_cons] at hmod hzero ⊢
    rw [h]
    generalize sum (2 ^ 16) ((0 : UInt16).toNat :: leWords bytes) = folded at *
    generalize (leWords bytes).sum = words at *
    have hstart : (0 : UInt16).toNat = 0 := rfl
    omega
  rw [internetChecksum, hones]
  rfl

/-- The complement of the checksum of a first part, with whole words only, starts the next. -/
theorem internetChecksum_append {a : List UInt8} (b : List UInt8) (heven : a.length % 2 = 0) :
    internetChecksum (~~~internetChecksum 0 a) b = internetChecksum 0 (a ++ b) := by
  have hlt := sum_words_lt 0 a
  have hmod := @sum_mod (2 ^ 16) ((0 : UInt16).toNat :: leWords a) (by decide)
  have hzero := @sum_eq_zero_iff (2 ^ 16) ((0 : UInt16).toNat :: leWords a) (by decide)
  have hstart : (~~~internetChecksum 0 a).toNat
      = sum (2 ^ 16) ((0 : UInt16).toNat :: leWords a) := by
    rw [internetChecksum, UInt16.not_not, UInt16.toNat_ofNat', Nat.mod_eq_of_lt hlt]
  have hsum : sum (2 ^ 16) ((~~~internetChecksum 0 a).toNat :: leWords b)
      = sum (2 ^ 16) ((0 : UInt16).toNat :: leWords (a ++ b)) := by
    apply sum_congr (by decide) (words_lt _ b) (words_lt 0 (a ++ b))
    all_goals
      rw [hstart, leWords_append b heven, List.sum_cons, List.sum_cons, List.sum_append]
      rw [List.sum_cons] at hmod hzero
      omega
  rw [internetChecksum, hsum, internetChecksum]

/-- `in_cksum` computes the Internet checksum of at most 65535 bytes, and no addition of it
overflows. So the header checks out with its checksum stored in a field, at an even offset, that
was zero, and a checksum may be computed in two parts. -/
theorem inCksum_internetChecksum :
    (∀ (pkt : Packet) (addr : ℤ) (len : ℕ) (csum : UInt16), len ≤ 65535 →
      inCksumInt32 pkt addr len csum = .ok (internetChecksum csum (slice pkt addr len))) ∧
    (∀ (pkt : Packet) (addr : ℤ) (len k : ℕ), len ≤ 65535 → 2 * k + 2 ≤ len →
      ∃ cksum, inCksumInt32 (store pkt (addr + (2 * k : ℕ)) (rawBytes 0)) addr len 0 = .ok cksum ∧
        inCksumInt32 (store pkt (addr + (2 * k : ℕ)) (rawBytes cksum.toNat)) addr len 0 = .ok 0) ∧
    (∀ (pkt pkta pktb : Packet) (addr addra addrb : ℤ) (a b : List UInt8),
      slice pkt addr (a ++ b).length = a ++ b → slice pkta addra a.length = a →
      slice pktb addrb b.length = b → a.length % 2 = 0 → (a ++ b).length ≤ 65535 →
      ∃ cksum, inCksumInt32 pkta addra a.length 0 = .ok cksum ∧
        inCksumInt32 pkt addr (a ++ b).length 0
          = inCksumInt32 pktb addrb b.length (~~~cksum)) := by
  refine ⟨fun pkt addr len csum hlen => inCksumInt32_eq hlen, ?_, ?_⟩
  · intro pkt addr len k hlen hfield
    refine ⟨_, inCksumInt32_eq hlen, ?_⟩
    have hsum := @wordSum_store_field pkt addr k len _ hfield (UInt16.toNat_lt
      (internetChecksum 0 (slice (store pkt (addr + (2 * k : ℕ)) (rawBytes 0)) addr len)))
    rw [wordSum_eq, wordSum_eq] at hsum
    rw [inCksumInt32_eq hlen, internetChecksum_filled hsum]
  · intro pkt pkta pktb addr addra addrb a b hab ha hb heven hlen
    have hparts : a.length + b.length ≤ 65535 := by rwa [List.length_append] at hlen
    refine ⟨_, inCksumInt32_eq (by omega), ?_⟩
    rw [inCksumInt32_eq hlen, inCksumInt32_eq (by omega), hab, ha, hb,
      internetChecksum_append b heven]

/-- Three bytes of ones: the checksum of one word and an odd byte, in one part and in two, and the
checksum stored in the word. -/
theorem inCksum_internetChecksum_odd :
    inCksumInt32 (fun _ => 0xff) 0 3 0 = .ok 0xff00 ∧
      (∃ cksum, inCksumInt32 (store (fun _ => 0xff) 0 (rawBytes 0)) 0 3 0 = .ok cksum ∧
        inCksumInt32 (store (fun _ => 0xff) 0 (rawBytes cksum.toNat)) 0 3 0 = .ok 0) ∧
      ∃ cksum, inCksumInt32 (fun _ => 0xff) 0 2 0 = .ok cksum ∧
        inCksumInt32 (fun _ => 0xff) 0 3 0 = inCksumInt32 (fun _ => 0xff) 7 1 (~~~cksum) :=
  ⟨inCksum_internetChecksum.1 (fun _ => 0xff) 0 3 0 (by decide),
    inCksum_internetChecksum.2.1 (fun _ => 0xff) 0 3 0 (by decide) (by decide),
    inCksum_internetChecksum.2.2 (fun _ => 0xff) (fun _ => 0xff) (fun _ => 0xff) 0 0 7
      [0xff, 0xff] [0xff] rfl rfl rfl rfl (by decide)⟩

end

end Udpfwd
end IpApps
