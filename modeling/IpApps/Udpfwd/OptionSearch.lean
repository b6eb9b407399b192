import IpApps.Udpfwd.DhcpOptions

/-!
# The search for an option

`dhcpScanOpt` reads a region as PAD bytes, END, and options with a length octet, which it takes
through a `char` pointer. Read as it should be, with a length of 0 to 255, the region is passed
item by item up to the option with the tag, END, or the end of the region: `PassedOver`.

The two agree as long as no length from 128 on is met. The length 254 is taken as -2, and the
search stays where it is; behind the length 255 it takes the length octet for an END.
-/

namespace IpApps
namespace Udpfwd

open Memory

section search

variable (pkt : Packet) (optend : ℤ) (tag : UInt8)

/-- The search goes on behind the item at `p`. -/
def Passes (p : ℤ) : Prop := p < optend ∧ pkt p ≠ tag ∧ pkt p ≠ endTag

instance (p : ℤ) : Decidable (Passes pkt optend tag p) := by
  unfold Passes
  infer_instance

/-- The bytes of the item at `p`, whose length octet is unsigned. -/
def itemSize (p : ℤ) : ℕ := if pkt p = pad then 1 else 2 + (pkt (p + 1)).toNat

/-- The positions of the items that are passed over from `p` on, and where the search ends. -/
inductive PassedOver : ℤ → List ℤ → ℤ → Prop
  | done {p : ℤ} (h : ¬Passes pkt optend tag p) : PassedOver p [] p
  | item {p q : ℤ} {ps : List ℤ} (h : Passes pkt optend tag p)
      (rest : PassedOver (p + itemSize pkt p) ps q) : PassedOver p (p :: ps) q

/-- What the search finds where it ends. -/
def found (q : ℤ) : Option ℤ := if q < optend ∧ pkt q = tag then some q else none

/-- The first value octet of the last overload option among the items. -/
def lastOverload (ovldOpt : UInt8) (ps : List ℤ) : UInt8 :=
  match (ps.filter fun p => pkt p = optOverload).getLast? with
  | some p => pkt (p + 2)
  | none => ovldOpt

/-- The search ends, with what the region holds. -/
def ScanExact (opt : ℤ) (ovldOpt : UInt8) : Prop :=
  ∃ ps q, PassedOver pkt optend tag opt ps q ∧ ∃ rounds, ∀ n ≥ rounds,
    dhcpScanOpt pkt optend tag n opt ovldOpt
      = some (found pkt optend tag q, lastOverload pkt ovldOpt ps)

/-- The item at `p` is a PAD, or its length is the same as a `char`. -/
def ShortLength (p : ℤ) : Prop := pkt p ≠ pad → (pkt (p + 1)).toNat ≤ 127

instance (p : ℤ) : Decidable (ShortLength pkt p) := by
  unfold ShortLength
  infer_instance

/-- The first long option has a length octet with `length`; `before` is what lies in front of
it, `after` behind it. -/
structure LongOption (opt : ℤ) (before : List ℤ) (p : ℤ) (after : List ℤ) (q : ℤ) : Prop where
  passed : PassedOver pkt optend tag opt (before ++ p :: after) q
  short : ∀ r ∈ before, ShortLength pkt r
  long : ¬ShortLength pkt p

end search

section walk

variable {pkt : Packet} {optend : ℤ} {tag : UInt8}

/-- Every region is passed over: an item takes at least a byte. -/
theorem passedOver_exists (pkt : Packet) (optend : ℤ) (tag : UInt8) (p : ℤ) :
    ∃ ps q, PassedOver pkt optend tag p ps q := by
  induction hsize : (optend - p).toNat using Nat.strong_induction_on generalizing p with
  | _ n ih =>
    by_cases hpass : Passes pkt optend tag p
    · have hp := hpass.1
      have hpos : 1 ≤ itemSize pkt p := by
        unfold itemSize
        split <;> omega
      obtain ⟨ps, q, hrest⟩ := ih (optend - (p + itemSize pkt p)).toNat (by omega) _ rfl
      exact ⟨_, _, .item hpass hrest⟩
    · exact ⟨_, _, .done hpass⟩

@[simp]
theorem lastOverload_nil (ovldOpt : UInt8) : lastOverload pkt ovldOpt [] = ovldOpt := rfl

theorem lastOverload_cons (ovldOpt : UInt8) (p : ℤ) (ps : List ℤ) :
    lastOverload pkt ovldOpt (p :: ps)
      = lastOverload pkt (if pkt p = optOverload then pkt (p + 2) else ovldOpt) ps := by
  unfold lastOverload
  by_cases hp : pkt p = optOverload
  · rw [List.filter_cons_of_pos (by simpa using hp), if_pos hp, List.getLast?_cons]
    cases (ps.filter fun p => pkt p = optOverload).getLast? <;> rfl
  · rw [List.filter_cons_of_neg (by simpa using hp), if_neg hp]

/-- Where the search does not go on it returns. -/
theorem dhcpScanOpt_end {p : ℤ} (h : ¬Passes pkt optend tag p) (n : ℕ) (ovldOpt : UInt8) :
    dhcpScanOpt pkt optend tag (n + 1) p ovldOpt = some (found pkt optend tag p, ovldOpt) := by
  unfold dhcpScanOpt found
  by_cases hp : p < optend
  · rw [if_neg (not_not_intro hp)]
    by_cases htag : pkt p = tag
    · rw [if_pos htag, if_pos ⟨hp, htag⟩]
    · have hend : pkt p = endTag := by
        by_contra hne
        exact h ⟨hp, htag, hne⟩
      rw [if_neg htag, if_pos hend, if_neg (fun hfound => htag hfound.2)]
  · rw [if_pos hp, if_neg (fun hfound => hp hfound.1)]

/-- The step behind an item. -/
theorem dhcpScanOpt_item {p : ℤ} (h : Passes pkt optend tag p) (n : ℕ) (ovldOpt : UInt8) :
    dhcpScanOpt pkt optend tag (n + 1) p ovldOpt
      = dhcpScanOpt pkt optend tag n (if pkt p = pad then p + 1 else p + 2 + dhcpoptlen pkt p)
          (if pkt p = optOverload then pkt (p + 2) else ovldOpt) := by
  obtain ⟨hp, htag, hend⟩ := h
  rw [dhcpScanOpt, if_neg (not_not_intro hp), if_neg htag, if_neg hend]
  by_cases hpad : pkt p = pad
  · rw [if_pos hpad, if_pos hpad, hpad, if_neg (by decide)]
  · rw [if_neg hpad, if_neg hpad]

/-- A short length is the same as a `char`. -/
theorem dhcpoptlen_short {p : ℤ} (h : (pkt (p + 1)).toNat ≤ 127) :
    dhcpoptlen pkt p = (pkt (p + 1)).toNat := by
  unfold dhcpoptlen
  simp only
  rw [if_pos (by omega)]

/-- Items with short lengths are passed over one by one. -/
theorem dhcpScanOpt_short {opt q : ℤ} {before after : List ℤ}
    (hshort : ∀ p ∈ before, ShortLength pkt p)
    (h : PassedOver pkt optend tag opt (before ++ after) q) (ovldOpt : UInt8) :
    ∃ mid, PassedOver pkt optend tag mid after q ∧ ∀ n,
      dhcpScanOpt pkt optend tag (n + before.length) opt ovldOpt
        = dhcpScanOpt pkt optend tag n mid (lastOverload pkt ovldOpt before) := by
  induction before generalizing opt ovldOpt with
  | nil => exact ⟨opt, h, fun n => rfl⟩
  | cons p before ih =>
    rw [List.cons_append] at h
    rcases h with - | ⟨hpass, hrest⟩
    have hnext : p + itemSize pkt p
        = if pkt p = pad then p + 1 else p + 2 + dhcpoptlen pkt p := by
      unfold itemSize
      by_cases hpad : pkt p = pad
      · rw [if_pos hpad, if_pos hpad]
        rfl
      · rw [if_neg hpad, if_neg hpad, dhcpoptlen_short (hshort p List.mem_cons_self hpad)]
        omega
    obtain ⟨mid, hmid, hrun⟩ := ih (fun r hr => hshort r (List.mem_cons_of_mem p hr)) hrest
      (if pkt p = optOverload then pkt (p + 2) else ovldOpt)
    refine ⟨mid, hmid, fun n => ?_⟩
    rw [List.length_cons, ← Nat.add_assoc, dhcpScanOpt_item hpass, ← hnext, hrun,
      lastOverload_cons]

/-- A search that has come to its end within some rounds does so within more. -/
theorem dhcpScanOpt_mono {n : ℕ} {p : ℤ} {ovldOpt : UInt8} {result : Option ℤ × UInt8}
    (h : dhcpScanOpt pkt optend tag n p ovldOpt = some result) (k : ℕ) :
    dhcpScanOpt pkt optend tag (n + k) p ovldOpt = some result := by
  induction n generalizing p ovldOpt with
  | zero => exact absurd h (by simp [dhcpScanOpt])
  | succ n ih =>
    rw [Nat.succ_add]
    by_cases hpass : Passes pkt optend tag p
    · rw [dhcpScanOpt_item hpass] at h ⊢
      exact ih h
    · rw [dhcpScanOpt_end hpass] at h ⊢
      exact h

/-- A region with short lengths is read to its end. -/
theorem dhcpScanOpt_passed {opt q : ℤ} {ps : List ℤ} (h : PassedOver pkt optend tag opt ps q)
    (hshort : ∀ p ∈ ps, ShortLength pkt p) (ovldOpt : UInt8) {n : ℕ} (hn : ps.length < n) :
    dhcpScanOpt pkt optend tag n opt ovldOpt
      = some (found pkt optend tag q, lastOverload pkt ovldOpt ps) := by
  rw [← List.append_nil ps] at h
  obtain ⟨mid, hmid, hrun⟩ := dhcpScanOpt_short hshort h ovldOpt
  obtain ⟨k, rfl⟩ : ∃ k, n = k + 1 + ps.length := ⟨n - ps.length - 1, by omega⟩
  rcases hmid with hend | -
  rw [hrun, dhcpScanOpt_end hend]

/-- At an option of length 254 the search stays for ever. -/
theorem dhcpScanOpt_stays {p : ℤ} (h : Passes pkt optend tag p) (hpad : pkt p ≠ pad)
    (hlen : pkt (p + 1) = 254) (n : ℕ) (ovldOpt : UInt8) :
    dhcpScanOpt pkt optend tag n p ovldOpt = none := by
  have hback : p + 2 + dhcpoptlen pkt p = p := by
    have hval : dhcpoptlen pkt p = -2 := by
      unfold dhcpoptlen
      rw [hlen]
      rfl
    omega
  induction n generalizing ovldOpt with
  | zero => rfl
  | succ n ih => rw [dhcpScanOpt_item h, if_neg hpad, hback, ih]

/-- Behind an option of length 255 the search finds nothing. -/
theorem dhcpScanOpt_giveUp {p : ℤ} (h : Passes pkt optend tag p) (hpad : pkt p ≠ pad)
    (hlen : pkt (p + 1) = 255) (htag : tag ≠ endTag) (n : ℕ) (ovldOpt : UInt8) :
    dhcpScanOpt pkt optend tag (n + 2) p ovldOpt
      = some (none, if pkt p = optOverload then pkt (p + 2) else ovldOpt) := by
  have hnext : p + 2 + dhcpoptlen pkt p = p + 1 := by
    have hval : dhcpoptlen pkt p = -1 := by
      unfold dhcpoptlen
      rw [hlen]
      rfl
    omega
  have hend : ¬Passes pkt optend tag (p + 1) := fun hpass => hpass.2.2 hlen
  have hnone : found pkt optend tag (p + 1) = none := by
    unfold found
    rw [hlen]
    exact if_neg fun hfound => htag hfound.2.symm
  rw [dhcpScanOpt_item h, if_neg hpad, hnext, dhcpScanOpt_end hend, hnone]

/-- The search comes to the first long option. -/
theorem LongOption.reached {opt p q : ℤ} {before after : List ℤ}
    (h : LongOption pkt optend tag opt before p after q) (ovldOpt : UInt8) :
    Passes pkt optend tag p ∧ pkt p ≠ pad ∧ ∀ n,
      dhcpScanOpt pkt optend tag (n + before.length) opt ovldOpt
        = dhcpScanOpt pkt optend tag n p (lastOverload pkt ovldOpt before) := by
  obtain ⟨mid, hmid, hrun⟩ := dhcpScanOpt_short h.short h.passed ovldOpt
  rcases hmid with - | ⟨hpass, -⟩
  exact ⟨hpass, (Classical.not_imp.mp h.long).1, hrun⟩

theorem lastOverload_append (ovldOpt : UInt8) (ps rs : List ℤ) :
    lastOverload pkt ovldOpt (ps ++ rs) = lastOverload pkt (lastOverload pkt ovldOpt ps) rs := by
  induction ps generalizing ovldOpt with
  | nil => rfl
  | cons p ps ih => rw [List.cons_append, lastOverload_cons, lastOverload_cons, ih]

/-- All lengths are short, or a long one stands in front of the first one that is not. -/
theorem PassedOver.short_or_long {opt q : ℤ} {ps : List ℤ}
    (h : PassedOver pkt optend tag opt ps q) :
    (∀ p ∈ ps, ShortLength pkt p) ∨
      ∃ before p after, ps = before ++ p :: after ∧
        LongOption pkt optend tag opt before p after q := by
  cases hfind : ps.find? fun p => ¬ShortLength pkt p with
  | none =>
    left
    intro p hp
    simpa using List.find?_eq_none.mp hfind p hp
  | some p =>
    obtain ⟨hlong, before, after, rfl, hshort⟩ := List.find?_eq_some_iff_append.mp hfind
    right
    refine ⟨before, p, after, rfl, h, fun r hr => ?_, by simpa using hlong⟩
    simpa using hshort r hr

end walk

section exact

variable (pkt : Packet) (optend : ℤ) (tag : UInt8)

/-- No length of 128 or more is met, or the first one is 255, and behind this option there is
nothing to find and no other overload value. -/
def LengthsRead (opt : ℤ) (ovldOpt : UInt8) : Prop :=
  (∃ ps q, PassedOver pkt optend tag opt ps q ∧ ∀ p ∈ ps, ShortLength pkt p) ∨
    ∃ before p after q, LongOption pkt optend tag opt before p after q ∧ pkt (p + 1) = 255 ∧
      found pkt optend tag q = none ∧
      lastOverload pkt ovldOpt (before ++ p :: after) = lastOverload pkt ovldOpt (before ++ [p])

/-- The first length of 128 or more is at most 253, so that the search goes back. -/
def GoesBack (opt : ℤ) : Prop :=
  ∃ before p after q, LongOption pkt optend tag opt before p after q ∧
    (pkt (p + 1)).toNat ≤ 253

variable {pkt optend tag}

/-- The search is exact if the lengths are read as they should be, and only then, unless it
goes back. -/
theorem scanExact_of_lengthsRead (htag : tag ≠ endTag) (opt : ℤ) (ovldOpt : UInt8) :
    (LengthsRead pkt optend tag opt ovldOpt → ScanExact pkt optend tag opt ovldOpt) ∧
      (ScanExact pkt optend tag opt ovldOpt →
        LengthsRead pkt optend tag opt ovldOpt ∨ GoesBack pkt optend tag opt) := by
  constructor
  · rintro (⟨ps, q, hpassed, hshort⟩ | ⟨before, p, after, q, hlong, hlen, hnone, hover⟩)
    · exact ⟨ps, q, hpassed, ps.length + 1,
        fun n hn => dhcpScanOpt_passed hpassed hshort ovldOpt hn⟩
    · obtain ⟨hpass, hpad, hrun⟩ := hlong.reached ovldOpt
      refine ⟨_, q, hlong.passed, before.length + 2, fun n hn => ?_⟩
      obtain ⟨k, rfl⟩ : ∃ k, n = k + 2 + before.length := ⟨n - before.length - 2, by omega⟩
      rw [hrun, dhcpScanOpt_giveUp hpass hpad hlen htag, hnone, hover, lastOverload_append,
        lastOverload_cons, lastOverload_nil]
  · rintro ⟨ps, q, hpassed, rounds, hscan⟩
    rcases hpassed.short_or_long with hshort | ⟨before, p, after, rfl, hlong⟩
    · exact .inl (.inl ⟨ps, q, hpassed, hshort⟩)
    · obtain ⟨hpass, hpad, hrun⟩ := hlong.reached ovldOpt
      have hlt := (pkt (p + 1)).toNat_lt
      by_cases hback : (pkt (p + 1)).toNat ≤ 253
      · exact .inr ⟨before, p, after, q, hlong, hback⟩
      · by_cases hstay : (pkt (p + 1)).toNat = 254
        · -- the loop never ends
          have hlen : pkt (p + 1) = 254 := UInt8.toNat_inj.mp hstay
          have hnever := hscan (rounds + before.length) (by omega)
          rw [hrun, dhcpScanOpt_stays hpass hpad hlen] at hnever
          exact absurd hnever (by simp)
        · have hlen : pkt (p + 1) = 255 := UInt8.toNat_inj.mp (by
            show _ = 255
            omega)
          have hresult := hscan (rounds + 2 + before.length) (by omega)
          rw [hrun, dhcpScanOpt_giveUp hpass hpad hlen htag] at hresult
          obtain ⟨hnone, hover⟩ := Prod.mk.inj (Option.some.inj hresult)
          left
          right
          refine ⟨before, p, after, q, hlong, hlen, hnone.symm, ?_⟩
          rw [← hover, lastOverload_append, lastOverload_cons, lastOverload_nil]

/-- A PAD, an option of two bytes and a message type. -/
def shortRegion : Packet := store (fun _ => 0) 0 [pad, 12, 2, 1, 1, dhcpMsgtype, 1, 1, endTag]

/-- An option of 254 bytes and a message type. -/
def longRegion : Packet :=
  store (fun _ => 0) 0 ([43, 254] ++ List.replicate 254 1 ++ [dhcpMsgtype, 1, 1, endTag])

theorem shortRegion_exact : ScanExact shortRegion 9 dhcpMsgtype 0 0 :=
  have hpassed : PassedOver shortRegion 9 dhcpMsgtype 0 [0, 1] 5 :=
    .item (by decide) (.item (by decide) (.done (by decide)))
  (scanExact_of_lengthsRead (by decide) 0 0).1 (.inl ⟨_, _, hpassed, by decide⟩)

/-- The message type behind an option of 254 bytes is never found. -/
theorem longRegion_not_exact : ¬∀ (pkt : Packet) (optend opt : ℤ) (tag ovldOpt : UInt8),
    tag ≠ pad → tag ≠ endTag → ScanExact pkt optend tag opt ovldOpt := by
  intro h
  obtain ⟨ps, q, -, rounds, hscan⟩ := h longRegion 260 0 dhcpMsgtype 0 (by decide) (by decide)
  have hnever := hscan rounds (le_refl rounds)
  rw [dhcpScanOpt_stays (by decide) (by decide) (by decide)] at hnever
  exact absurd hnever (by simp)

end exact

/-! ## Where a search comes to its end -/

section ends

variable (pkt : Packet) (optend : ℤ) (tag : UInt8)

/-- The search from `opt` on comes to its end, with the option and the overload value: no length of
128 or more is met, or the first one is 255. -/
inductive ReadsTo (opt : ℤ) : Option ℤ → UInt8 → Prop
  | short {ps : List ℤ} {q : ℤ} (h : PassedOver pkt optend tag opt ps q)
      (hshort : ∀ p ∈ ps, ShortLength pkt p) :
      ReadsTo opt (found pkt optend tag q) (lastOverload pkt 0 ps)
  | long {before : List ℤ} {p : ℤ} {after : List ℤ} {q : ℤ}
      (h : LongOption pkt optend tag opt before p after q) (hlen : pkt (p + 1) = 255) :
      ReadsTo opt none (lastOverload pkt 0 (before ++ [p]))

/-- The first length of 128 or more is 254, at which the search stays. -/
def StaysAt (opt : ℤ) : Prop :=
  ∃ before p after q, LongOption pkt optend tag opt before p after q ∧ pkt (p + 1) = 254

variable {pkt optend tag} {opt : ℤ}

theorem ReadsTo.scan {o : Option ℤ} {v : UInt8} (h : ReadsTo pkt optend tag opt o v)
    (htag : tag ≠ endTag) :
    ∃ rounds, ∀ n ≥ rounds, dhcpScanOpt pkt optend tag n opt 0 = some (o, v) := by
  cases h with
  | @short ps q h hshort =>
    exact ⟨ps.length + 1, fun n hn => dhcpScanOpt_passed h hshort 0 hn⟩
  | @long before p after q h hlen =>
    obtain ⟨hpass, hpad, hrun⟩ := h.reached 0
    refine ⟨before.length + 2, fun n hn => ?_⟩
    obtain ⟨k, rfl⟩ : ∃ k, n = k + 2 + before.length := ⟨n - before.length - 2, by omega⟩
    rw [hrun, dhcpScanOpt_giveUp hpass hpad hlen htag, lastOverload_append, lastOverload_cons,
      lastOverload_nil]

theorem StaysAt.scan (h : StaysAt pkt optend tag opt) (n : ℕ) :
    dhcpScanOpt pkt optend tag n opt 0 = none := by
  obtain ⟨before, p, after, q, hlong, hlen⟩ := h
  obtain ⟨hpass, hpad, hrun⟩ := hlong.reached 0
  -- a search that ends within `n` rounds ends within more
  cases hscan : dhcpScanOpt pkt optend tag n opt 0 with
  | none => rfl
  | some result =>
    have hmore := dhcpScanOpt_mono hscan before.length
    rw [hrun, dhcpScanOpt_stays hpass hpad hlen] at hmore
    exact absurd hmore (by simp)

end ends

end Udpfwd
end IpApps
