import IpApps.Udpfwd.ReplyFilter

/-!
# The check of a relay agent option

`dhcp_relay_validate_agent_option` on any buffer. Its loop accepts a concatenation of complete
suboptions, and also one with a single byte behind it, since it does not look at a last byte.
The remote ID is compared with a local array which `getMacfromIfname` leaves as it is where the
interface has no hardware address.
-/

namespace IpApps
namespace Udpfwd

open Memory Endian

/-! ## Suboptions -/

/-- A circuit id or a remote id. -/
def IsSuboption (o : DhcpOpt) : Prop := o.tag = dhcpRaiCircuitId ∨ o.tag = dhcpRaiRemoteId

/-- The bytes of suboptions. -/
def encodeSuboptions (subs : List DhcpOpt) : List UInt8 := subs.flatMap Tlv.Opt.encode

/-- The last suboption with a tag. -/
def lastWith (tag : UInt8) (subs : List DhcpOpt) : Option DhcpOpt :=
  (subs.filter fun o => o.tag = tag).getLast?

theorem encodeSuboptions_cons (o : DhcpOpt) (subs : List DhcpOpt) :
    encodeSuboptions (o :: subs) = o.encode ++ encodeSuboptions subs := rfl

@[simp]
theorem length_encodeSuboptions_nil : (encodeSuboptions []).length = 0 := rfl

@[simp]
theorem length_encodeSuboptions_cons (o : DhcpOpt) (subs : List DhcpOpt) :
    (encodeSuboptions (o :: subs)).length
      = o.body.length + 2 + (encodeSuboptions subs).length := by
  rw [encodeSuboptions_cons, List.length_append, Tlv.Opt.length_encode, Tlv.Opt.size]

theorem length_le_length_encodeSuboptions (subs : List DhcpOpt) :
    subs.length ≤ (encodeSuboptions subs).length := by
  induction subs with
  | nil => exact Nat.le_refl 0
  | cons o subs ih =>
    rw [List.length_cons, length_encodeSuboptions_cons]
    omega

theorem lastWith_cons (tag : UInt8) (o : DhcpOpt) (subs : List DhcpOpt) :
    lastWith tag (o :: subs) = (lastWith tag subs).or (if o.tag = tag then some o else none) := by
  unfold lastWith
  by_cases htag : o.tag = tag
  · rw [List.filter_cons_of_pos (by simpa using htag), if_pos htag, List.getLast?_cons]
    cases (subs.filter fun o => o.tag = tag).getLast? <;> rfl
  · rw [List.filter_cons_of_neg (by simpa using htag), if_neg htag, Option.or_none]

/-- Suboptions with at most one byte behind them are read in one way. -/
theorem encodeSuboptions_inj {subs subs' : List DhcpOpt} {tail tail' : List UInt8}
    (htail : tail.length ≤ 1) (htail' : tail'.length ≤ 1)
    (h : encodeSuboptions subs ++ tail = encodeSuboptions subs' ++ tail') :
    subs = subs' ∧ tail = tail' := by
  induction subs generalizing subs' with
  | nil =>
    cases subs' with
    | nil => exact ⟨rfl, h⟩
    | cons o' subs' =>
      have hlen := congrArg List.length h
      rw [List.length_append, List.length_append, length_encodeSuboptions_nil,
        length_encodeSuboptions_cons] at hlen
      omega
  | cons o subs ih =>
    cases subs' with
    | nil =>
      have hlen := congrArg List.length h
      rw [List.length_append, List.length_append, length_encodeSuboptions_nil,
        length_encodeSuboptions_cons] at hlen
      omega
    | cons o' subs' =>
      rw [encodeSuboptions_cons, encodeSuboptions_cons, List.append_assoc, List.append_assoc,
        Tlv.Opt.encode, Tlv.Opt.encode, List.cons_append, List.cons_append, List.cons_append,
        List.cons_append] at h
      obtain ⟨htag, hrest⟩ := List.cons.inj h
      obtain ⟨hlen, hrest⟩ := List.cons.inj hrest
      have hlength : o.body.length = o'.body.length := by
        rw [← Tlv.Opt.toNat_len, ← Tlv.Opt.toNat_len, hlen]
      obtain ⟨hbody, hrest⟩ := List.append_inj hrest hlength
      obtain ⟨hsubs, htails⟩ := ih hrest
      refine ⟨?_, htails⟩
      cases o
      cases o'
      simp only at htag hbody
      subst htag hbody
      rw [hsubs]

/-! ## The loop -/

/-- What the loop has found in the suboptions: the last circuit id and the last remote id. -/
structure Suboptions.Filled (pkt : Packet) (s : Suboptions) (c r : Option DhcpOpt) : Prop where
  noCircuit : c = none → s.circuitIdPtr = none
  circuit : ∀ o ∈ c, ∃ p, s.circuitIdPtr = some p ∧ s.circuitIdLen = o.body.length ∧
    slice pkt p o.body.length = o.body
  noRemote : r = none → s.remoteIdPtr = none
  remote : ∀ o ∈ r, ∃ p, s.remoteIdPtr = some p ∧ s.remoteIdLen = o.body.length ∧
    slice pkt p o.body.length = o.body

section loop

variable {pkt : Packet} {buf n : ℤ}

/-- The loop passes complete suboptions, and stops where at most one byte is left. -/
theorem suboptionLoop_encode {subs : List DhcpOpt} (hkind : ∀ o ∈ subs, IsSuboption o)
    {iter : ℤ} {k : ℕ} (hk : k ≤ 1)
    (hbytes : slice pkt (buf + iter) (encodeSuboptions subs).length = encodeSuboptions subs)
    (hn : iter + (encodeSuboptions subs).length + k = n) {rounds : ℕ}
    (hrounds : subs.length < rounds) {s : Suboptions} {c r : Option DhcpOpt}
    (hs : s.Filled pkt c r) :
    ∃ s', suboptionLoop pkt buf n rounds iter s = some s' ∧
      s'.Filled pkt ((lastWith dhcpRaiCircuitId subs).or c)
        ((lastWith dhcpRaiRemoteId subs).or r) := by
  induction subs generalizing iter rounds s c r with
  | nil =>
    obtain ⟨m, rfl⟩ : ∃ m, rounds = m + 1 := ⟨rounds - 1, by simp at hrounds; omega⟩
    refine ⟨s, ?_, hs⟩
    rw [suboptionLoop, if_pos (by simp [encodeSuboptions] at hn; omega)]
  | cons o subs ih =>
    rw [List.length_cons] at hrounds
    obtain ⟨m, rfl⟩ : ∃ m, rounds = m + 1 := ⟨rounds - 1, by omega⟩
    -- the tag, the length octet and the body of the first suboption, and what is behind it
    rw [encodeSuboptions_cons, List.length_append] at hbytes hn
    obtain ⟨hfirst, hrest⟩ := slice_of_append _ hbytes
    rw [Tlv.Opt.length_encode, Tlv.Opt.size] at hn
    rw [Tlv.Opt.length_encode, Tlv.Opt.size, slice_succ, slice_succ, Tlv.Opt.encode] at hfirst
    obtain ⟨htag, hlen⟩ := List.cons.inj hfirst
    obtain ⟨hlen, hbody⟩ := List.cons.inj hlen
    rw [Tlv.Opt.length_encode, Tlv.Opt.size] at hrest
    have hoctet : (pkt (buf + (iter + 1))).toNat = o.body.length := by
      rw [← add_assoc, hlen, Tlv.Opt.toNat_len]
    have hbody : slice pkt (buf + (iter + 2)) o.body.length = o.body := by
      rw [show buf + (iter + 2) = buf + iter + 1 + 1 by omega]
      exact hbody
    have hrest : slice pkt (buf + (iter + 2 + o.body.length)) (encodeSuboptions subs).length
        = encodeSuboptions subs := by
      rw [show buf + (iter + 2 + (o.body.length : ℤ))
        = buf + iter + ((o.body.length + 2 : ℕ) : ℤ) by omega]
      exact hrest
    have hkinds := fun o' ho' => hkind o' (List.mem_cons_of_mem o ho')
    rw [suboptionLoop, if_neg (by omega), htag]
    simp only [hoctet]
    rw [if_neg (by omega), lastWith_cons, lastWith_cons, Option.or_assoc, Option.or_assoc]
    rcases hkind o List.mem_cons_self with hcircuit | hremote
    · -- a later circuit id replaces an earlier one
      have hother : o.tag ≠ dhcpRaiRemoteId := by
        rw [hcircuit]
        decide
      rw [if_pos hcircuit, if_pos hcircuit, if_neg hother, Option.none_or, Option.some_or]
      apply ih hkinds hrest (by omega) (by omega)
      refine ⟨fun hnone => absurd hnone (by simp), ?_, hs.noRemote, hs.remote⟩
      rintro o' ⟨⟩
      exact ⟨_, rfl, rfl, hbody⟩
    · have hother : o.tag ≠ dhcpRaiCircuitId := by
        rw [hremote]
        decide
      rw [if_neg hother, if_pos hremote, if_neg hother, if_pos hremote, Option.none_or,
        Option.some_or]
      apply ih hkinds hrest (by omega) (by omega)
      refine ⟨hs.noCircuit, hs.circuit, fun hnone => absurd hnone (by simp), ?_⟩
      rintro o' ⟨⟩
      exact ⟨_, rfl, rfl, hbody⟩

/-- From `iter` on the buffer holds suboptions, with at most one byte behind them. -/
def HoldsSuboptions (pkt : Packet) (buf n iter : ℤ) : Prop :=
  ∃ (subs : List DhcpOpt) (k : ℕ), k ≤ 1 ∧ (∀ o ∈ subs, IsSuboption o) ∧
    iter + (encodeSuboptions subs).length + k = n ∧
    slice pkt (buf + iter) (encodeSuboptions subs).length = encodeSuboptions subs

/-- A suboption in front of others. -/
theorem HoldsSuboptions.cons {iter : ℤ}
    (hkind : pkt (buf + iter) = dhcpRaiCircuitId ∨ pkt (buf + iter) = dhcpRaiRemoteId)
    (h : HoldsSuboptions pkt buf n (iter + 2 + (pkt (buf + (iter + 1))).toNat)) :
    HoldsSuboptions pkt buf n iter := by
  obtain ⟨subs, k, hk, hkinds, hn, hbytes⟩ := h
  have hoctet := (pkt (buf + (iter + 1))).toNat_lt
  let o : DhcpOpt :=
    { tag := pkt (buf + iter)
      body := slice pkt (buf + (iter + 2)) (pkt (buf + (iter + 1))).toNat
      tag_ne_pad := by rcases hkind with h | h <;> rw [h] <;> decide
      tag_ne_stop := by rcases hkind with h | h <;> rw [h] <;> decide
      length_le := by
        rw [length_slice]
        omega }
  have hlen : o.body.length = (pkt (buf + (iter + 1))).toNat := length_slice _ _ _
  have hencode : slice pkt (buf + iter) o.size = o.encode := by
    rw [Tlv.Opt.size, slice_succ, slice_succ, Tlv.Opt.encode, Tlv.Opt.len, hlen,
      UInt8.ofNat_toNat, add_assoc, add_assoc, add_assoc]
    rfl
  refine ⟨o :: subs, k, hk, ?_, ?_, ?_⟩
  · intro o' ho'
    rcases List.mem_cons.mp ho' with rfl | hmem
    · exact hkind
    · exact hkinds o' hmem
  · rw [length_encodeSuboptions_cons, hlen]
    omega
  · rw [encodeSuboptions_cons, List.length_append, Tlv.Opt.length_encode, slice_add, hencode,
      Tlv.Opt.size, hlen]
    rw [show buf + iter + (((pkt (buf + (iter + 1))).toNat + 2 : ℕ) : ℤ)
      = buf + (iter + 2 + (pkt (buf + (iter + 1))).toNat) by omega, hbytes]

/-- What the loop accepts are suboptions with at most one byte behind them. -/
theorem of_suboptionLoop {rounds : ℕ} {iter : ℤ} (hiter : iter ≤ n) (hrounds : n - iter < rounds)
    {s s' : Suboptions} (h : suboptionLoop pkt buf n rounds iter s = some s') :
    HoldsSuboptions pkt buf n iter := by
  induction rounds generalizing iter s with
  | zero => omega
  | succ rounds ih =>
    rw [suboptionLoop] at h
    split at h
    · exact ⟨[], (n - iter).toNat, by omega, by simp,
        by rw [length_encodeSuboptions_nil]; omega, rfl⟩
    · simp only at h
      split at h
      · exact absurd h (by simp)
      split at h
      · rename_i htag
        exact HoldsSuboptions.cons (Or.inl htag) (ih (by omega) (by omega) h)
      split at h
      · rename_i htag
        exact HoldsSuboptions.cons (Or.inr htag) (ih (by omega) (by omega) h)
      · exact absurd h (by simp)

end loop

/-! ## The verdict -/

/-- What is decided from the last circuit id and the last remote id. -/
def judgeIds (host : Host) (ifName : CString) (pktInfo : Option82Options) (rId : RemoteId)
    (c r : Option DhcpOpt) : AgentOptionStatus × Option82Options :=
  match c, r with
  | some c, some r =>
    if c.body.length ≠ 4 then (.invalid, pktInfo)
    else
      let circuitId := UInt32.ofNat (beVal c.body)
      match rId with
      | .mac =>
        if r.body = localMac host ifName then (.ok, { pktInfo with circuitId })
        else (.mismatch, pktInfo)
      | .ip =>
        if r.body.length = 4 ∧
            host.ipExistsOnInterface ifName (UInt32.ofNat (leVal r.body)) = true then
          (.ok, { circuitId, ipAddr := UInt32.ofNat (leVal r.body) })
        else (.mismatch, pktInfo)
  | _, _ => (.mismatch, pktInfo)

section verdict

variable {host : Host} {ifName : CString} {pkt : Packet} {buf : ℤ} {n : ℕ}
variable {pktInfo : Option82Options} {rId : RemoteId}

theorem length_localMac : (localMac host ifName).length = macHeaderLength := by
  unfold localMac macHeaderLength
  rw [List.length_take, List.length_append, List.length_drop, Vector.length_toList]
  omega

/-- The ids that the loop has found are judged. -/
theorem validate_of_filled {s : Suboptions} {c r : Option DhcpOpt}
    (hloop : suboptionLoop pkt buf n ((n : ℤ).toNat + 1) 0 {} = some s) (hs : s.Filled pkt c r) :
    dhcpRelayValidateAgentOption host pkt buf n ifName pktInfo rId
      = judgeIds host ifName pktInfo rId c r := by
  unfold dhcpRelayValidateAgentOption judgeIds
  rw [hloop]
  rcases c with - | c
  · simp only [hs.noCircuit rfl]
  rcases r with - | r
  · simp only [hs.noRemote rfl]
    cases s.circuitIdPtr <;> rfl
  obtain ⟨p, hp, hplen, hpbytes⟩ := hs.circuit c rfl
  obtain ⟨q, hq, hqlen, hqbytes⟩ := hs.remote r rfl
  simp only [hp, hq, hplen, hqlen]
  split
  · rfl
  rename_i hfour
  rw [not_not.mp hfour] at hpbytes
  rw [hpbytes]
  -- the remote id is compared with the hardware address or looked up as an address
  cases rId with
  | mac =>
    simp only
    by_cases hsix : r.body.length ≠ macHeaderLength
    · rw [if_pos hsix, if_neg fun heq => hsix (by rw [heq, length_localMac])]
    · rw [if_neg hsix]
      rw [not_not.mp hsix] at hqbytes
      rw [hqbytes, ite_not]
  | ip =>
    simp only
    by_cases hip : r.body.length ≠ 4
    · rw [if_pos hip, if_neg fun heq => hip heq.1]
    · rw [if_neg hip]
      rw [not_not.mp hip] at hqbytes
      rw [ipAt, hqbytes]
      simp only [not_not.mp hip, true_and, ite_not]

/-- The verdict on suboptions with at most one byte behind them. -/
theorem validate_encode {subs : List DhcpOpt} (hkind : ∀ o ∈ subs, IsSuboption o)
    {tail : List UInt8} (htail : tail.length ≤ 1)
    (h : slice pkt buf n = encodeSuboptions subs ++ tail) :
    dhcpRelayValidateAgentOption host pkt buf n ifName pktInfo rId
      = judgeIds host ifName pktInfo rId (lastWith dhcpRaiCircuitId subs)
          (lastWith dhcpRaiRemoteId subs) := by
  have hlen : n = (encodeSuboptions subs).length + tail.length := by
    rw [← length_slice pkt buf n, h, List.length_append]
  rw [hlen] at h
  have hbytes := (slice_of_append _ h).1
  have hstart : ({} : Suboptions).Filled pkt none none := ⟨fun _ => rfl, nofun, fun _ => rfl, nofun⟩
  have hcount := length_le_length_encodeSuboptions subs
  have hrounds : subs.length < n + 1 := by omega
  have hn : (0 : ℤ) + (encodeSuboptions subs).length + tail.length = n := by omega
  obtain ⟨s, hloop, hs⟩ := suboptionLoop_encode hkind htail
    (by rw [add_zero]; exact hbytes) hn hrounds hstart
  rw [Option.or_none, Option.or_none] at hs
  exact validate_of_filled hloop hs

/-- The verdict on anything else. -/
theorem validate_other (h : ∀ (subs : List DhcpOpt) (tail : List UInt8),
      (∀ o ∈ subs, IsSuboption o) → tail.length ≤ 1 →
      slice pkt buf n ≠ encodeSuboptions subs ++ tail) :
    dhcpRelayValidateAgentOption host pkt buf n ifName pktInfo rId = (.invalid, pktInfo) := by
  unfold dhcpRelayValidateAgentOption
  cases hloop : suboptionLoop pkt buf n ((n : ℤ).toNat + 1) 0 {} with
  | none => rfl
  | some s =>
    obtain ⟨subs, k, hk, hkind, hn, hbytes⟩ := of_suboptionLoop (by omega) (by omega) hloop
    have hsplit : slice pkt buf n = encodeSuboptions subs
        ++ slice pkt (buf + (encodeSuboptions subs).length) k := by
      rw [add_zero] at hbytes
      rw [show n = (encodeSuboptions subs).length + k by omega, slice_add, hbytes]
    exact absurd hsplit (h subs _ hkind (by rw [length_slice]; exact hk))

end verdict

/-! ## Exactness -/

/-- The buffer is a concatenation of complete suboptions. -/
def Concatenation (body : List UInt8) (subs : List DhcpOpt) : Prop :=
  (∀ o ∈ subs, IsSuboption o) ∧ body = encodeSuboptions subs

/-- The last circuit id and the last remote id. -/
def LastIds (subs : List DhcpOpt) (c r : DhcpOpt) : Prop :=
  lastWith dhcpRaiCircuitId subs = some c ∧ lastWith dhcpRaiRemoteId subs = some r

/-- The remote id is the hardware address of the interface, or one of its addresses. -/
def IsRemoteId (host : Host) (ifName : CString) (rId : RemoteId) (id : List UInt8) : Prop :=
  match rId with
  | .mac => id.length = macHeaderLength ∧ host.getMacfromIfname ifName = id
  | .ip => id.length = 4 ∧ host.ipExistsOnInterface ifName (UInt32.ofNat (leVal id)) = true

/-- The option is well formed and matches the interface. -/
def Matches (host : Host) (ifName : CString) (rId : RemoteId) (body : List UInt8)
    (circuitId : UInt32) : Prop :=
  ∃ subs c r, Concatenation body subs ∧ LastIds subs c r ∧ c.body.length = 4 ∧
    circuitId = UInt32.ofNat (beVal c.body) ∧ IsRemoteId host ifName rId r.body

/-- The check says what it should of the `n` bytes at `buf`, and reads nothing else. -/
structure CheckExact (host : Host) (ifName : CString) (rId : RemoteId) (pkt : Packet) (buf : ℤ)
    (n : ℕ) (pktInfo : Option82Options) : Prop where
  ok_iff : (dhcpRelayValidateAgentOption host pkt buf n ifName pktInfo rId).1 = .ok ↔
    ∃ circuitId, Matches host ifName rId (slice pkt buf n) circuitId
  invalid : (¬∃ subs, Concatenation (slice pkt buf n) subs) →
    (dhcpRelayValidateAgentOption host pkt buf n ifName pktInfo rId).1 = .invalid
  inside : ∀ pkt' : Packet, (∀ i : ℕ, i < n → pkt' (buf + i) = pkt (buf + i)) →
    dhcpRelayValidateAgentOption host pkt' buf n ifName pktInfo rId
      = dhcpRelayValidateAgentOption host pkt buf n ifName pktInfo rId
  circuitId : (dhcpRelayValidateAgentOption host pkt buf n ifName pktInfo rId).1 = .ok →
    ∀ circuitId, Matches host ifName rId (slice pkt buf n) circuitId →
      (dhcpRelayValidateAgentOption host pkt buf n ifName pktInfo rId).2.circuitId = circuitId
  unchanged : (dhcpRelayValidateAgentOption host pkt buf n ifName pktInfo rId).1 ≠ .ok →
    (dhcpRelayValidateAgentOption host pkt buf n ifName pktInfo rId).2 = pktInfo

/-- A single byte follows the suboptions, and they do not have both ids with a circuit id of
the wrong length. -/
def StrayByte (body : List UInt8) : Prop :=
  ∃ subs b, (∀ o ∈ subs, IsSuboption o) ∧ body = encodeSuboptions subs ++ [b] ∧
    ∀ c r, LastIds subs c r → c.body.length = 4

/-- The remote id is not the hardware address of the interface, but what the local array holds. -/
def UnsetMacMatches (host : Host) (ifName : CString) (rId : RemoteId) (body : List UInt8) : Prop :=
  rId = .mac ∧ ∃ subs c r, Concatenation body subs ∧ LastIds subs c r ∧ c.body.length = 4 ∧
    r.body = localMac host ifName ∧ r.body ≠ host.getMacfromIfname ifName

section exact

variable {host : Host} {ifName : CString} {pkt : Packet} {buf : ℤ} {n : ℕ}
variable {pktInfo : Option82Options} {rId : RemoteId}

/-- The comparison the code makes. -/
def AcceptsRemoteId (host : Host) (ifName : CString) (rId : RemoteId) (id : List UInt8) : Prop :=
  match rId with
  | .mac => id = localMac host ifName
  | .ip => id.length = 4 ∧ host.ipExistsOnInterface ifName (UInt32.ofNat (leVal id)) = true

/-- The results of the last step. -/
theorem judgeIds_cases (c r : Option DhcpOpt) :
    (∃ c' r', c = some c' ∧ r = some r' ∧ c'.body.length ≠ 4 ∧
      judgeIds host ifName pktInfo rId c r = (.invalid, pktInfo)) ∨
    (∃ c' r', c = some c' ∧ r = some r' ∧ c'.body.length = 4 ∧
      AcceptsRemoteId host ifName rId r'.body ∧ ∃ ipAddr,
        judgeIds host ifName pktInfo rId c r
          = (.ok, ⟨UInt32.ofNat (beVal c'.body), ipAddr⟩)) ∨
    ((∀ c' r', c = some c' → r = some r' → c'.body.length = 4 ∧
        ¬AcceptsRemoteId host ifName rId r'.body) ∧
      judgeIds host ifName pktInfo rId c r = (.mismatch, pktInfo)) := by
  rcases c with - | c
  · exact Or.inr (Or.inr ⟨nofun, rfl⟩)
  rcases r with - | r
  · exact Or.inr (Or.inr ⟨nofun, rfl⟩)
  unfold judgeIds
  dsimp only
  by_cases hfour : c.body.length ≠ 4
  · rw [if_pos hfour]
    exact Or.inl ⟨c, r, rfl, rfl, hfour, rfl⟩
  rw [if_neg hfour]
  have hlen := not_not.mp hfour
  by_cases haccepts : AcceptsRemoteId host ifName rId r.body
  · refine Or.inr (Or.inl ⟨c, r, rfl, rfl, hlen, haccepts, ?_⟩)
    cases rId with
    | mac => exact ⟨_, if_pos haccepts⟩
    | ip => exact ⟨_, if_pos haccepts⟩
  · refine Or.inr (Or.inr ⟨?_, ?_⟩)
    · rintro c' r' ⟨⟩ ⟨⟩
      exact ⟨hlen, haccepts⟩
    · cases rId with
      | mac => exact if_neg haccepts
      | ip => exact if_neg haccepts

/-- What the last step says. -/
theorem judgeIds_spec (c r : Option DhcpOpt) :
    ((judgeIds host ifName pktInfo rId c r).1 = .ok ↔
      ∃ c' r', c = some c' ∧ r = some r' ∧ c'.body.length = 4 ∧
        AcceptsRemoteId host ifName rId r'.body) ∧
    ((judgeIds host ifName pktInfo rId c r).1 = .invalid ↔
      ∃ c' r', c = some c' ∧ r = some r' ∧ c'.body.length ≠ 4) ∧
    ((judgeIds host ifName pktInfo rId c r).1 = .ok → ∀ c', c = some c' →
      (judgeIds host ifName pktInfo rId c r).2.circuitId = UInt32.ofNat (beVal c'.body)) ∧
    ((judgeIds host ifName pktInfo rId c r).1 ≠ .ok →
      (judgeIds host ifName pktInfo rId c r).2 = pktInfo) := by
  rcases @judgeIds_cases host ifName pktInfo rId c r with
    ⟨c', r', rfl, rfl, hlen, heq⟩ | ⟨c', r', rfl, rfl, hlen, haccepts, ipAddr, heq⟩ | ⟨hno, heq⟩
  · rw [heq]
    refine ⟨⟨nofun, ?_⟩, ⟨fun _ => ⟨c', r', rfl, rfl, hlen⟩, fun _ => rfl⟩, nofun, fun _ => rfl⟩
    rintro ⟨_, _, ⟨⟩, -, hfour, -⟩
    exact absurd hfour hlen
  · rw [heq]
    refine ⟨⟨fun _ => ⟨c', r', rfl, rfl, hlen, haccepts⟩, fun _ => rfl⟩, ⟨nofun, ?_⟩, ?_,
      fun hne => absurd rfl hne⟩
    · rintro ⟨_, _, ⟨⟩, -, hne⟩
      exact absurd hlen hne
    · rintro - _ ⟨⟩
      rfl
  · rw [heq]
    refine ⟨⟨nofun, ?_⟩, ⟨nofun, ?_⟩, nofun, fun _ => rfl⟩
    · rintro ⟨c', r', hc, hr, -, haccepts⟩
      exact absurd haccepts (hno c' r' hc hr).2
    · rintro ⟨c', r', hc, hr, hne⟩
      exact absurd (hno c' r' hc hr).1 hne

/-- The local array is the hardware address, if that has six bytes. -/
theorem localMac_eq (h : (host.getMacfromIfname ifName).length = macHeaderLength) :
    localMac host ifName = host.getMacfromIfname ifName := by
  unfold localMac
  rw [List.take_append_of_le_length (by omega), ← h, List.take_length]

theorem IsRemoteId.accepts {id : List UInt8} (h : IsRemoteId host ifName rId id) :
    AcceptsRemoteId host ifName rId id := by
  cases rId with
  | ip => exact h
  | mac =>
    obtain ⟨hlen, hmac⟩ := h
    show id = localMac host ifName
    rw [localMac_eq (by rw [hmac, hlen]), hmac]

/-- What is accepted is right, or the hardware address of the interface is another one. -/
theorem AcceptsRemoteId.isRemoteId {id : List UInt8} (h : AcceptsRemoteId host ifName rId id) :
    IsRemoteId host ifName rId id ∨
      rId = .mac ∧ id = localMac host ifName ∧ id ≠ host.getMacfromIfname ifName := by
  cases rId with
  | ip => exact Or.inl h
  | mac =>
    have hid : id = localMac host ifName := h
    by_cases hmac : id = host.getMacfromIfname ifName
    · exact Or.inl ⟨by rw [hid, length_localMac], hmac.symm⟩
    · exact Or.inr ⟨rfl, hid, hmac⟩

/-- The check reads the buffer only. -/
theorem validate_inside {pkt' : Packet} (h : ∀ i : ℕ, i < n → pkt' (buf + i) = pkt (buf + i)) :
    dhcpRelayValidateAgentOption host pkt' buf n ifName pktInfo rId
      = dhcpRelayValidateAgentOption host pkt buf n ifName pktInfo rId := by
  rw [@validate_congr host ifName rId (fun a => pkt (buf + a)) pkt' buf n h pktInfo,
    @validate_congr host ifName rId (fun a => pkt (buf + a)) pkt buf n (fun i _ => rfl) pktInfo]

/-- Three ways a buffer can be. -/
theorem body_cases (body : List UInt8) :
    (∃ subs, Concatenation body subs) ∨
      (∃ subs b, (∀ o ∈ subs, IsSuboption o) ∧ body = encodeSuboptions subs ++ [b]) ∨
      ∀ (subs : List DhcpOpt) (tail : List UInt8), (∀ o ∈ subs, IsSuboption o) →
        tail.length ≤ 1 → body ≠ encodeSuboptions subs ++ tail := by
  by_cases hwhole : ∃ subs, Concatenation body subs
  · exact Or.inl hwhole
  by_cases hstray : ∃ subs b, (∀ o ∈ subs, IsSuboption o) ∧ body = encodeSuboptions subs ++ [b]
  · exact Or.inr (Or.inl hstray)
  refine Or.inr (Or.inr fun subs tail hkind htail hbody => ?_)
  rcases tail with - | ⟨b, - | ⟨b', tail⟩⟩
  · rw [List.append_nil] at hbody
    exact hwhole ⟨subs, hkind, hbody⟩
  · exact hstray ⟨subs, b, hkind, hbody⟩
  · simp only [List.length_cons] at htail
    omega

/-- A concatenation is read in one way. -/
theorem Concatenation.unique {body : List UInt8} {subs subs' : List DhcpOpt}
    (h : Concatenation body subs) (h' : Concatenation body subs') : subs = subs' := by
  have heq : encodeSuboptions subs ++ [] = encodeSuboptions subs' ++ [] := by
    rw [List.append_nil, List.append_nil, ← h.2, ← h'.2]
  exact (encodeSuboptions_inj (by simp) (by simp) heq).1

/-- A byte behind suboptions is no part of a concatenation. -/
theorem not_concatenation_append {subs : List DhcpOpt} {b : UInt8} :
    ¬∃ subs', Concatenation (encodeSuboptions subs ++ [b]) subs' := by
  rintro ⟨subs', -, hbody⟩
  rw [← List.append_nil (encodeSuboptions subs')] at hbody
  exact absurd (encodeSuboptions_inj (by simp) (by simp) hbody).2 (by simp)

/-- The check of complete suboptions is exact unless the local array stands in for a hardware
address. -/
theorem checkExact_concatenation {subs : List DhcpOpt}
    (h : Concatenation (slice pkt buf n) subs) :
    CheckExact host ifName rId pkt buf n pktInfo ↔
      ¬UnsetMacMatches host ifName rId (slice pkt buf n) := by
  have hresult := @validate_encode host ifName pkt buf n pktInfo rId subs h.1 [] (by simp)
    (by rw [List.append_nil]; exact h.2)
  obtain ⟨hok, -, hcircuit, hsame⟩ := @judgeIds_spec host ifName pktInfo rId
    (lastWith dhcpRaiCircuitId subs) (lastWith dhcpRaiRemoteId subs)
  rw [← hresult] at hok hcircuit hsame
  constructor
  · rintro hexact ⟨rfl, subs', c, r, hsubs', hids, hfour, hlocal, hmac⟩
    obtain rfl := h.unique hsubs'
    obtain ⟨id, subs', c', r', hsubs', hids', -, -, hremote⟩ :=
      hexact.ok_iff.mp (hok.mpr ⟨c, r, hids.1, hids.2, hfour, hlocal⟩)
    obtain rfl := h.unique hsubs'
    obtain rfl : r = r' := Option.some.inj (hids.2.symm.trans hids'.2)
    exact hmac hremote.2.symm
  · intro hset
    refine ⟨⟨?_, ?_⟩, fun hno => absurd ⟨subs, h⟩ hno, fun pkt' => validate_inside, ?_, hsame⟩
    · intro haccepted
      obtain ⟨c, r, hc, hr, hfour, haccepts⟩ := hok.mp haccepted
      rcases haccepts.isRemoteId with hremote | ⟨hmode, hlocal, hmac⟩
      · exact ⟨_, subs, c, r, h, ⟨hc, hr⟩, hfour, rfl, hremote⟩
      · exact absurd ⟨hmode, subs, c, r, h, ⟨hc, hr⟩, hfour, hlocal, hmac⟩ hset
    · rintro ⟨id, subs', c, r, hsubs', hids, hfour, -, hremote⟩
      obtain rfl := h.unique hsubs'
      exact hok.mpr ⟨c, r, hids.1, hids.2, hfour, hremote.accepts⟩
    · rintro haccepted id ⟨subs', c, r, hsubs', hids, -, rfl, -⟩
      obtain rfl := h.unique hsubs'
      exact hcircuit haccepted c hids.1

/-- Where the buffer is no concatenation, the check is exact if it says so. -/
theorem checkExact_of_not_concatenation (h : ¬∃ subs, Concatenation (slice pkt buf n) subs) :
    CheckExact host ifName rId pkt buf n pktInfo ↔
      dhcpRelayValidateAgentOption host pkt buf n ifName pktInfo rId = (.invalid, pktInfo) := by
  have hmatches (id : UInt32) : ¬Matches host ifName rId (slice pkt buf n) id := by
    rintro ⟨subs, c, r, hsubs, -⟩
    exact h ⟨subs, hsubs⟩
  constructor
  · intro hexact
    have hinvalid := hexact.invalid h
    exact Prod.ext hinvalid (hexact.unchanged (by rw [hinvalid]; nofun))
  · intro hinvalid
    refine ⟨⟨?_, ?_⟩, fun _ => by rw [hinvalid], fun pkt' => validate_inside, ?_,
      fun _ => by rw [hinvalid]⟩
    · rw [hinvalid]
      exact nofun
    · rintro ⟨id, hid⟩
      exact absurd hid (hmatches id)
    · rintro - id hid
      exact absurd hid (hmatches id)

/-- The check is exact of every buffer but those with a stray byte, and those that match the
local array and no hardware address. -/
theorem checkExact_iff :
    CheckExact host ifName rId pkt buf n pktInfo ↔
      ¬StrayByte (slice pkt buf n) ∧ ¬UnsetMacMatches host ifName rId (slice pkt buf n) := by
  rcases body_cases (slice pkt buf n) with ⟨subs, hsubs⟩ | ⟨subs, b, hkind, hbody⟩ | hother
  · -- complete suboptions
    have hstray : ¬StrayByte (slice pkt buf n) := by
      rintro ⟨subs', b, -, hbody, -⟩
      rw [hbody] at hsubs
      exact not_concatenation_append ⟨subs, hsubs⟩
    rw [checkExact_concatenation hsubs, and_iff_right hstray]
  · -- complete suboptions and one byte behind them
    have hno : ¬∃ subs', Concatenation (slice pkt buf n) subs' := by
      rw [hbody]
      exact not_concatenation_append
    have hset : ¬UnsetMacMatches host ifName rId (slice pkt buf n) := by
      rintro ⟨-, subs', c, r, hsubs', -⟩
      exact hno ⟨subs', hsubs'⟩
    have hresult :=
      @validate_encode host ifName pkt buf n pktInfo rId subs hkind [b] (by simp) hbody
    obtain ⟨-, hinvalid, -, hsame⟩ := @judgeIds_spec host ifName pktInfo rId
      (lastWith dhcpRaiCircuitId subs) (lastWith dhcpRaiRemoteId subs)
    rw [checkExact_of_not_concatenation hno, and_iff_left hset, hresult]
    constructor
    · rintro hverdict ⟨subs', b', -, hbody', hfour⟩
      rw [hbody] at hbody'
      obtain rfl := (encodeSuboptions_inj (by simp) (by simp) hbody').1
      obtain ⟨c, r, hc, hr, hne⟩ := hinvalid.mp (by rw [hverdict])
      exact hne (hfour c r ⟨hc, hr⟩)
    · intro hstray
      have hwrong : ∃ c r, LastIds subs c r ∧ c.body.length ≠ 4 := by
        by_contra hno'
        refine hstray ⟨subs, b, hkind, hbody, fun c r hids => ?_⟩
        by_contra hne
        exact hno' ⟨c, r, hids, hne⟩
      obtain ⟨c, r, ⟨hc, hr⟩, hne⟩ := hwrong
      have hfirst := hinvalid.mpr ⟨c, r, hc, hr, hne⟩
      exact Prod.ext hfirst (hsame (by rw [hfirst]; nofun))
  · -- anything else
    have hno : ¬∃ subs', Concatenation (slice pkt buf n) subs' := by
      rintro ⟨subs', hkind, hbody⟩
      exact hother subs' [] hkind (by simp) (by rw [List.append_nil]; exact hbody)
    have hstray : ¬StrayByte (slice pkt buf n) := by
      rintro ⟨subs', b, hkind, hbody, -⟩
      exact hother subs' [b] hkind (by simp) hbody
    have hset : ¬UnsetMacMatches host ifName rId (slice pkt buf n) := by
      rintro ⟨-, subs', c, r, hsubs', -⟩
      exact hno ⟨subs', hsubs'⟩
    rw [checkExact_of_not_concatenation hno]
    exact iff_of_true (validate_other hother) ⟨hstray, hset⟩

/-- Interface `1` with the address 10.0.0.1. -/
def addressHost : Host := { emptyHost with getifaddrs := some [⟨['1'], .inet 0x0100000a⟩] }

/-- The circuit id of interface 3. -/
def circuitIdOf3 : DhcpOpt where
  tag := dhcpRaiCircuitId
  body := [0, 0, 0, 3]
  tag_ne_pad := by decide
  tag_ne_stop := by decide
  length_le := by decide

/-- The address 10.0.0.1 as remote id. -/
def remoteIdOf1 : DhcpOpt where
  tag := dhcpRaiRemoteId
  body := [10, 0, 0, 1]
  tag_ne_pad := by decide
  tag_ne_stop := by decide
  length_le := by decide

/-- Both ids with a byte behind them. -/
def strayBuffer : Packet := store (fun _ => 0) 0 [1, 4, 0, 0, 0, 3, 2, 4, 10, 0, 0, 1, 7]

/-- A byte behind the ids is accepted. -/
theorem strayBuffer_not_exact : ¬∀ (host : Host) (ifName : CString) (rId : RemoteId)
    (pkt : Packet) (buf : ℤ) (n : ℕ) (pktInfo : Option82Options),
    CheckExact host ifName rId pkt buf n pktInfo := by
  intro h
  have hbody : slice strayBuffer 0 13 = encodeSuboptions [circuitIdOf3, remoteIdOf1] ++ [7] := by
    decide +kernel
  have hinvalid := (h addressHost ['1'] .ip strayBuffer 0 13 ⟨0, 0⟩).invalid (by
    rw [hbody]
    exact not_concatenation_append)
  revert hinvalid
  decide +kernel

end exact

end Udpfwd
end IpApps
