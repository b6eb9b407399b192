import IpApps.Libc
import Mathlib.Tactic.IntervalCases

/-!
# `inet_pton`

The CLI accepts the address strings that `inet_pton` reads: four decimal numbers, none of which
has a superfluous zero in front. So an address has one string, `inetPton_inj`.
-/

namespace IpApps
namespace Libc

/-! ## The function -/

/-- The loop of `inet_pton`: the octets that are complete, and the one that is being read once a
digit of it has been seen. -/
def inetPtonOctets : List ℕ → Option ℕ → CString → Option (List ℕ)
  | _, none, [] => none
  | octets, some octet, [] => if octets.length = 3 then some (octets ++ [octet]) else none
  | octets, none, c :: s =>
    if isDigit c then inetPtonOctets octets (some (c.toNat - '0'.toNat)) s else none
  | octets, some octet, c :: s =>
    if isDigit c then
      -- a number does not go on after a zero
      if octet = 0 ∨ 255 < 10 * octet + (c.toNat - '0'.toNat) then none
      else inetPtonOctets octets (some (10 * octet + (c.toNat - '0'.toNat))) s
    else if c = '.' ∧ octets.length ≠ 3 then inetPtonOctets (octets ++ [octet]) none s
    else none

/-- `s_addr` for four octets on the little-endian host. -/
def packOctets (octets : List ℕ) : IpAddress :=
  UInt32.ofNat (octets.foldr (fun b acc => b + 256 * acc) 0)

/-- The address `inet_pton` reads, `none` where it does not return 1. -/
def inetPton (s : CString) : Option IpAddress := (inetPtonOctets [] none s).map packOctets

example : inetPton "10.0.0.1".toList = some 0x0100000a := by decide
example : inetPton "10.0.0.01".toList = none := by decide

/-! ## One string for each address -/

/-- The characters that have been read: the complete octets and the one being read. -/
def octetsText (octets : List ℕ) (octet : Option ℕ) : CString :=
  octets.flatMap (fun octet => Nat.toDigits 10 octet ++ ['.']) ++ octet.elim [] (Nat.toDigits 10)

theorem octetsText_first {octets : List ℕ} {digit : ℕ} {c : Char} (s : CString)
    (h : Nat.toDigits 10 digit = [c]) :
    octetsText octets none ++ c :: s = octetsText octets (some digit) ++ s := by
  simp [octetsText, h]

theorem octetsText_next {octets : List ℕ} {octet digit : ℕ} {c : Char} (s : CString)
    (hoctet : octet ≠ 0) (hdigit : digit < 10) (h : Nat.toDigits 10 digit = [c]) :
    octetsText octets (some octet) ++ c :: s
      = octetsText octets (some (10 * octet + digit)) ++ s := by
  have happend := Nat.toDigits_append_toDigits (by omega : 1 < 10) (Nat.pos_of_ne_zero hoctet)
    hdigit
  simp [octetsText, ← happend, h]

theorem octetsText_dot {octets : List ℕ} {octet : ℕ} (s : CString) :
    octetsText octets (some octet) ++ '.' :: s = octetsText (octets ++ [octet]) none ++ s := by
  simp [octetsText]

theorem toDigits_digit {c : Char} (h : isDigit c = true) :
    c.toNat - '0'.toNat < 10 ∧ Nat.toDigits 10 (c.toNat - '0'.toNat) = [c] := by
  have hrange : '0' ≤ c ∧ c ≤ '9' := of_decide_eq_true h
  have hlow : 48 ≤ c.toNat := UInt32.le_iff_toNat_le.mp (Char.le_def.mp hrange.1)
  have hhigh : c.toNat ≤ 57 := UInt32.le_iff_toNat_le.mp (Char.le_def.mp hrange.2)
  have hc : c = Char.ofNat c.toNat := (Char.ofNat_toNat c).symm
  generalize c.toNat = n at hlow hhigh hc
  rw [hc]
  interval_cases n <;> exact ⟨by decide, by decide⟩

/-- What is read are the digits and dots of the octets that result. -/
theorem octetsText_of_inetPtonOctets {octets result : List ℕ} {octet : Option ℕ} {s : CString}
    (h : inetPtonOctets octets octet s = some result)
    (hoctets : ∀ b ∈ octets, b < 256) (hoctet : ∀ b ∈ octet, b < 256) :
    ∃ init last, result = init ++ [last] ∧ init.length = 3 ∧ (∀ b ∈ result, b < 256) ∧
      octetsText octets octet ++ s = octetsText init (some last) := by
  induction s generalizing octets octet with
  | nil =>
    cases octet with
    | none => exact absurd h nofun
    | some octet =>
      rw [inetPtonOctets, Option.ite_none_right_eq_some, Option.some.injEq] at h
      refine ⟨octets, octet, h.2.symm, h.1, ?_, List.append_nil _⟩
      rw [← h.2]
      intro b hb
      rcases List.mem_append.mp hb with hinit | hlast
      · exact hoctets b hinit
      · rw [List.mem_singleton.mp hlast]
        exact hoctet octet rfl
  | cons c s ih =>
    cases octet with
    | none =>
      rw [inetPtonOctets, Option.ite_none_right_eq_some] at h
      -- the first digit of an octet
      have ⟨hlt, hdigits⟩ := toDigits_digit h.1
      have ⟨init, last, hresult, hlength, hbounds, htext⟩ := ih h.2 hoctets (by
        rintro b ⟨⟩
        omega)
      exact ⟨init, last, hresult, hlength, hbounds, (octetsText_first s hdigits).trans htext⟩
    | some octet =>
      rw [inetPtonOctets] at h
      split at h
      · rename_i hdigit
        -- one more digit of an octet below 256
        rw [Option.ite_none_left_eq_some, not_or] at h
        have ⟨hlt, hdigits⟩ := toDigits_digit hdigit
        have ⟨init, last, hresult, hlength, hbounds, htext⟩ := ih h.2 hoctets (by
          rintro b ⟨⟩
          omega)
        exact ⟨init, last, hresult, hlength, hbounds,
          (octetsText_next s h.1.1 hlt hdigits).trans htext⟩
      · rw [Option.ite_none_right_eq_some] at h
        have ⟨init, last, hresult, hlength, hbounds, htext⟩ := ih h.2 (by
          intro b hb
          rcases List.mem_append.mp hb with hinit | hlast
          · exact hoctets b hinit
          · rw [List.mem_singleton.mp hlast]
            exact hoctet octet rfl) nofun
        refine ⟨init, last, hresult, hlength, hbounds, ?_⟩
        rw [h.1.1]
        exact (octetsText_dot s).trans htext

/-- Four octets are determined by their address. -/
theorem packOctets_inj {octets octets' : List ℕ} (hlength : octets.length = 4)
    (hlength' : octets'.length = 4) (hbounds : ∀ b ∈ octets, b < 256)
    (hbounds' : ∀ b ∈ octets', b < 256) (h : packOctets octets = packOctets octets') :
    octets = octets' := by
  match octets, octets', hlength, hlength' with
  | [a, b, c, d], [a', b', c', d'], _, _ =>
    simp only [List.mem_cons, forall_eq_or_imp, List.not_mem_nil, false_implies, implies_true,
      and_true] at hbounds hbounds'
    have hvalue := congrArg UInt32.toNat h
    simp only [packOctets, List.foldr_cons, List.foldr_nil, UInt32.toNat_ofNat'] at hvalue
    rw [Nat.mod_eq_of_lt (by omega), Nat.mod_eq_of_lt (by omega)] at hvalue
    have ha : a = a' := by omega
    have hb : b = b' := by omega
    have hc : c = c' := by omega
    have hd : d = d' := by omega
    rw [ha, hb, hc, hd]

/-- An address has one string. -/
theorem inetPton_inj {s t : CString} {ip : IpAddress} (hs : inetPton s = some ip)
    (ht : inetPton t = some ip) : s = t := by
  have ⟨octets, hoctets, hip⟩ := Option.map_eq_some_iff.mp hs
  have ⟨octets', hoctets', hip'⟩ := Option.map_eq_some_iff.mp ht
  have ⟨init, last, heq, hlength, hbounds, htext⟩ :=
    octetsText_of_inetPtonOctets hoctets nofun nofun
  have ⟨init', last', heq', hlength', hbounds', htext'⟩ :=
    octetsText_of_inetPtonOctets hoctets' nofun nofun
  have hsame : octets = octets' :=
    packOctets_inj (by rw [heq, List.length_append, hlength]; rfl)
      (by rw [heq', List.length_append, hlength']; rfl) hbounds hbounds' (hip.trans hip'.symm)
  have ⟨hinit, hlast⟩ := List.append_inj' ((heq.symm.trans hsame).trans heq') rfl
  calc s = octetsText init (some last) := htext
    _ = octetsText init' (some last') := by rw [hinit, List.cons.inj hlast |>.1]
    _ = t := htext'.symm

/-! ## The text of an address -/

/-- The characters of a dotted address. -/
def isDotted (c : Char) : Bool := c.isDigit || c = '.'

theorem isDotted_toDigits (n : ℕ) : (Nat.toDigits 10 n).all isDotted = true := by
  refine List.all_eq_true.mpr fun c hc => ?_
  rw [isDotted, Nat.isDigit_of_mem_toDigits (by omega) (by omega) hc]
  rfl

theorem isDotted_octetsText (octets : List ℕ) (octet : ℕ) :
    (octetsText octets (some octet)).all isDotted = true := by
  rw [octetsText, List.all_append]
  have hlast : ((some octet).elim [] (Nat.toDigits 10)).all isDotted = true :=
    isDotted_toDigits octet
  rw [hlast, Bool.and_true]
  induction octets with
  | nil => rfl
  | cons b octets ih =>
    rw [List.flatMap_cons, List.all_append, ih, List.all_append, isDotted_toDigits]
    rfl

theorem length_octetsText {octets : List ℕ} {octet : ℕ} (hoctets : ∀ b ∈ octets, b < 256)
    (hoctet : octet < 256) : (octetsText octets (some octet)).length ≤ 4 * octets.length + 3 := by
  have hdigits : ∀ {b : ℕ}, b < 256 → (Nat.toDigits 10 b).length ≤ 3 := fun hb =>
    (Nat.length_toDigits_le_iff (by omega) (by omega)).mpr (by omega)
  rw [octetsText, List.length_append]
  refine Nat.add_le_add ?_ (hdigits hoctet)
  induction octets with
  | nil => exact Nat.zero_le _
  | cons b octets ih =>
    have hb := hdigits (hoctets b List.mem_cons_self)
    have hrest := ih fun b' hb' => hoctets b' (List.mem_cons_of_mem _ hb')
    rw [List.flatMap_cons, List.length_append, List.length_append, List.length_cons,
      List.length_cons]
    simp only [List.length_nil]
    omega

/-- A dotted address has at most fifteen characters, digits and dots. -/
theorem text_of_inetPton {s : CString} (h : (inetPton s).isSome = true) :
    s.length ≤ 15 ∧ s.all isDotted = true := by
  have ⟨ip, hip⟩ := Option.isSome_iff_exists.mp h
  have ⟨octets, hoctets, _⟩ := Option.map_eq_some_iff.mp hip
  have ⟨init, last, heq, hlength, hbounds, htext⟩ :=
    octetsText_of_inetPtonOctets hoctets nofun nofun
  rw [heq] at hbounds
  have hshort := length_octetsText (fun b hb => hbounds b (List.mem_append_left _ hb))
    (hbounds last (by simp))
  have hs : s = octetsText init (some last) := htext
  refine ⟨?_, hs.symm ▸ isDotted_octetsText init last⟩
  calc s.length = (octetsText init (some last)).length := congrArg List.length hs
    _ ≤ 4 * init.length + 3 := hshort
    _ = 15 := by rw [hlength]

end Libc
end IpApps
