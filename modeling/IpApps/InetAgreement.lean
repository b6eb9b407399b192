import IpApps.InetPton

/-!
# One reading of an address

The commands check an address with `inet_pton`, and the daemon reads it from the database with
`inet_aton`, which reads octal and hexadecimal numbers and fewer than four of them as well. What
`inet_pton` accepts, `inet_aton` reads as the same address.
-/

namespace IpApps
namespace Libc

/-! ## Decimal numbers -/

theorem takeDigits_cons {base acc d : ℕ} {c : Char} (s : CString) (hc : digitValue c = some d)
    (hd : d < base) : takeDigits base acc (c :: s) = takeDigits base (acc * base + d) s := by
  rw [takeDigits, hc]
  exact if_pos hd

theorem digitValue_digitChar {d : ℕ} (h : d < 10) : digitValue d.digitChar = some d := by
  interval_cases d <;> decide

/-- The digits of a number are read in front of whatever comes after them. -/
theorem takeDigits_toDigits (n : ℕ) (s : CString) :
    takeDigits 10 0 (Nat.toDigits 10 n ++ s) = takeDigits 10 n s := by
  induction n using Nat.strongRecOn generalizing s with
  | ind n ih =>
    by_cases hn : n < 10
    · rw [Nat.toDigits_of_lt_base hn, List.singleton_append,
        takeDigits_cons s (digitValue_digitChar hn) hn, Nat.zero_mul, Nat.zero_add]
    · have hlast : n % 10 < 10 := Nat.mod_lt _ (by omega)
      rw [Nat.toDigits_of_base_le (by omega) (by omega), List.append_assoc,
        ih (n / 10) (by omega), List.singleton_append,
        takeDigits_cons s (digitValue_digitChar hlast) hlast]
      congr 1
      omega

/-- A positive number has no zero in front. -/
theorem toDigits_head {n : ℕ} (hn : 0 < n) :
    ∃ c cs, Nat.toDigits 10 n = c :: cs ∧ c ≠ '0' := by
  induction n using Nat.strongRecOn with
  | ind n ih =>
    by_cases hlt : n < 10
    · refine ⟨n.digitChar, [], Nat.toDigits_of_lt_base hlt, ?_⟩
      interval_cases n <;> decide
    · have ⟨c, cs, hcs, hc⟩ := ih (n / 10) (by omega) (by omega)
      refine ⟨c, cs ++ [(n % 10).digitChar], ?_, hc⟩
      rw [Nat.toDigits_of_base_le (by omega) (by omega), hcs, List.cons_append]

/-- A string that goes on with no digit of a number. -/
def EndsNumber (s : CString) : Prop := s = [] ∨ ∃ t, s = '.' :: t

theorem EndsNumber.takeDigits_eq {s : CString} (h : EndsNumber s) (base n : ℕ) :
    takeDigits base n s = (n, s) := by
  rcases h with rfl | ⟨t, rfl⟩
  · rfl
  · rfl

/-- Without a zero in front `strtoul` reads a decimal number. -/
theorem strtoul_decimal {c : Char} (hc : c ≠ '0') (s : CString) :
    strtoul (c :: s) = takeDigits 10 0 (c :: s) := by
  unfold strtoul
  split
  · rename_i heq
    exact absurd (List.cons.inj heq).1 hc
  · rename_i heq
    exact absurd (List.cons.inj heq).1 hc
  · rfl

/-- `strtoul` reads a number that is written in the usual way. -/
theorem strtoul_toDigits (n : ℕ) {s : CString} (h : EndsNumber s) :
    strtoul (Nat.toDigits 10 n ++ s) = (n, s) := by
  rcases Nat.eq_zero_or_pos n with rfl | hn
  · -- a single zero is an octal number, or the start of none
    rw [Nat.toDigits_zero, List.singleton_append]
    rcases h with rfl | ⟨t, rfl⟩
    · rfl
    · cases t <;> rfl
  · have ⟨c, cs, hcs, hc⟩ := toDigits_head hn
    have hread := takeDigits_toDigits n s
    rw [hcs, List.cons_append] at hread ⊢
    rw [strtoul_decimal hc, hread, h.takeDigits_eq]

/-! ## Four numbers -/

theorem isDigit_toDigits {n : ℕ} {c : Char} {cs : CString} (h : Nat.toDigits 10 n = c :: cs) :
    isDigit c = true := by
  have hmem : c ∈ Nat.toDigits 10 n := by
    rw [h]
    exact List.mem_cons_self
  have hdigit := Nat.isDigit_of_mem_toDigits (by omega) (by omega) hmem
  unfold Char.isDigit at hdigit
  rw [Bool.and_eq_true, decide_eq_true_eq, decide_eq_true_eq] at hdigit
  exact decide_eq_true ⟨hdigit.1, hdigit.2⟩

/-- One more octet is read. -/
theorem inetAtonParts_dot {more b : ℕ} {res : List ℕ} (hres : res.length ≤ 2) (hb : b < 256)
    (s : CString) :
    inetAtonParts (more + 1) res (Nat.toDigits 10 b ++ '.' :: s)
      = inetAtonParts more (res ++ [b]) s := by
  have hread := strtoul_toDigits b (Or.inr ⟨s, rfl⟩ : EndsNumber ('.' :: s))
  cases hdigits : Nat.toDigits 10 b with
  | nil => exact absurd hdigits Nat.toDigits_ne_nil
  | cons c cs =>
    rw [hdigits, List.cons_append] at hread
    rw [List.cons_append, inetAtonParts]
    simp only [hread, isDigit_toDigits hdigits]
    rw [if_neg (by simp), if_neg (by omega), if_neg (by omega)]

/-- The last octet is read. -/
theorem inetAtonParts_last {more b : ℕ} {res : List ℕ} (hres : res.length = 3) (hb : b < 256) :
    inetAtonParts (more + 1) res (Nat.toDigits 10 b)
      = some (UInt32.ofNat (res.foldr (fun b acc => b + 256 * acc) 0 + htonl b)) := by
  have hread := strtoul_toDigits b (Or.inl rfl : EndsNumber [])
  rw [List.append_nil] at hread
  cases hdigits : Nat.toDigits 10 b with
  | nil => exact absurd hdigits Nat.toDigits_ne_nil
  | cons c cs =>
    rw [hdigits] at hread
    rw [inetAtonParts]
    simp only [hread, isDigit_toDigits hdigits, hres, lastPartMax]
    rw [if_neg (by simp), if_neg (by omega), if_neg (by simp), if_neg (by omega)]

/-- What `inet_pton` accepts, `inet_aton` reads as the same address. -/
theorem inetAton_of_inetPton {s : CString} {ip : IpAddress} (h : inetPton s = some ip) :
    inetAton s = some ip := by
  have ⟨octets, hoctets, hip⟩ := Option.map_eq_some_iff.mp h
  have ⟨init, last, heq, hlength, hbounds, htext⟩ :=
    octetsText_of_inetPtonOctets hoctets (by simp) (by simp)
  have hs : s = octetsText init (some last) := htext
  match init, hlength with
  | [a, b, c], _ =>
    rw [heq] at hbounds
    have ha := hbounds a (by simp)
    have hb := hbounds b (by simp)
    have hc := hbounds c (by simp)
    have hd := hbounds last (by simp)
    have hsplit : s = Nat.toDigits 10 a ++ '.' :: (Nat.toDigits 10 b ++ '.' ::
        (Nat.toDigits 10 c ++ '.' :: Nat.toDigits 10 last)) := by
      rw [hs]
      simp [octetsText]
    unfold inetAton
    rw [hsplit, inetAtonParts_dot (by simp) ha, inetAtonParts_dot (by simp) hb,
      inetAtonParts_dot (by simp) hc, inetAtonParts_last rfl hd, ← hip, heq, packOctets]
    congr 2
    simp only [List.nil_append, List.cons_append, List.foldr_cons, List.foldr_nil, htonl]
    omega

/-- The other way round it fails: three numbers are an address for `inet_aton` only. -/
example : inetAton "10.0.1".toList = inetPton "10.0.0.1".toList ∧
    inetPton "10.0.1".toList = none := by decide

end Libc
end IpApps
