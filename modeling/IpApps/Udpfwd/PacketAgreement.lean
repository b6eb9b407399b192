import IpApps.Udpfwd.ReplyFilter
import Mathlib.Logic.Relation

/-!
# Two packets that agree on their first bytes

The option loop on two packets that agree up to some address: it does the same with both, and
leaves packets that agree as far and are unchanged behind it, as long as it reads no byte behind
that address. What it reads next depends on what it has moved, so the predicates of this module
are about the scans that the loop comes to: the tag and as a rule the length octet, the value of an
option that is moved, and of a relay agent option as much as the verdict needs.
-/

namespace IpApps
namespace Udpfwd

open Memory Endian

/-! ## Fields -/

section fields

variable {pkt pkt' : Packet} {n a : ℤ}

theorem ntohs_agree (h : AgreeTo pkt pkt' n) (ha : 0 ≤ a) (hn : a + 2 ≤ n) :
    ntohs pkt a = ntohs pkt' a := by
  rw [ntohs, ntohs, h.slice ha (by omega)]

theorem ipAt_agree (h : AgreeTo pkt pkt' n) (ha : 0 ≤ a) (hn : a + 4 ≤ n) :
    ipAt pkt a = ipAt pkt' a := by
  rw [ipAt, ipAt, h.slice ha (by omega)]

theorem dhcp_agree (h : AgreeTo pkt pkt' n) (hn : 0 < n) : dhcp pkt = dhcp pkt' :=
  dhcp_congr (h 0 (Int.le_refl 0) hn)

end fields

/-! ## The verdict on an option -/

/-- The loop over the suboptions reads their heads, up to the first one that makes the option
invalid, within the first `n` bytes. -/
def HeadsWithin (pkt : Packet) (buf buflen n : ℤ) : ℕ → ℤ → Prop
  | 0, _ => True
  | rounds + 1, iter =>
    iter < buflen - 1 →
      buf + iter + 2 ≤ n ∧
        (iter + 2 + (pkt (buf + (iter + 1))).toNat ≤ buflen →
          pkt (buf + iter) = dhcpRaiCircuitId ∨ pkt (buf + iter) = dhcpRaiRemoteId →
          HeadsWithin pkt buf buflen n rounds (iter + 2 + (pkt (buf + (iter + 1))).toNat))

/-- The circuit id and then the remote id are read within the first `n` bytes, if both were found
and have the lengths they should have. -/
def Suboptions.ValuesWithin (s : Suboptions) (rId : RemoteId) (n : ℤ) : Prop :=
  ∀ circuitIdPtr remoteIdPtr, s.circuitIdPtr = some circuitIdPtr →
    s.remoteIdPtr = some remoteIdPtr → s.circuitIdLen = 4 →
    circuitIdPtr + 4 ≤ n ∧
      (s.remoteIdLen = remoteIdLength rId → remoteIdPtr + remoteIdLength rId ≤ n)

/-- `dhcp_relay_validate_agent_option` reads the first `n` bytes only. -/
structure VerdictWithin (pkt : Packet) (buf buflen : ℤ) (rId : RemoteId) (n : ℤ) : Prop where
  heads : HeadsWithin pkt buf buflen n (buflen.toNat + 1) 0
  values : ∀ s, suboptionLoop pkt buf buflen (buflen.toNat + 1) 0 {} = some s →
    s.ValuesWithin rId n

theorem HeadsWithin.mono {pkt : Packet} {buf buflen n n' : ℤ} (hle : n ≤ n') {rounds : ℕ} {iter : ℤ}
    (h : HeadsWithin pkt buf buflen n rounds iter) :
    HeadsWithin pkt buf buflen n' rounds iter := by
  induction rounds generalizing iter with
  | zero => exact h
  | succ rounds ih =>
    intro hin
    obtain ⟨hhead, hrest⟩ := h hin
    exact ⟨hhead.trans hle, fun hfits hknown => ih (hrest hfits hknown)⟩

theorem VerdictWithin.mono {pkt : Packet} {buf buflen n n' : ℤ} {rId : RemoteId} (hle : n ≤ n')
    (h : VerdictWithin pkt buf buflen rId n) : VerdictWithin pkt buf buflen rId n' where
  heads := h.heads.mono hle
  values := by
    intro s hs p q hp hq hlen
    obtain ⟨hcircuit, hremote⟩ := h.values s hs p q hp hq hlen
    exact ⟨hcircuit.trans hle, fun hid => (hremote hid).trans hle⟩

/-- The ids that were found lie behind the start of the option body. -/
structure Suboptions.From (s : Suboptions) (buf : ℤ) : Prop where
  circuitId : ∀ p ∈ s.circuitIdPtr, buf ≤ p
  remoteId : ∀ p ∈ s.remoteIdPtr, buf ≤ p

section verdict

variable {host : Host} {ifName : CString} {rId : RemoteId} {pkt pkt' : Packet} {buf buflen n : ℤ}

theorem suboptionLoop_twin (h : AgreeTo pkt pkt' n) (hbuf : 0 ≤ buf) {rounds : ℕ} {iter : ℤ}
    (hiter : 0 ≤ iter) {s : Suboptions} (hs : s.From buf)
    (hheads : HeadsWithin pkt buf buflen n rounds iter) :
    suboptionLoop pkt' buf buflen rounds iter s = suboptionLoop pkt buf buflen rounds iter s ∧
      ∀ s' ∈ suboptionLoop pkt buf buflen rounds iter s, s'.From buf := by
  induction rounds generalizing iter s with
  | zero =>
    refine ⟨rfl, fun s' hs' => ?_⟩
    obtain rfl := Option.some.inj hs'
    exact hs
  | succ rounds ih =>
    unfold suboptionLoop
    by_cases hend : iter < buflen - 1
    · -- the head of the suboption was received
      obtain ⟨hhead, hrest⟩ := hheads hend
      have htype : pkt (buf + iter) = pkt' (buf + iter) := h _ (by omega) (by omega)
      have hlen : pkt (buf + (iter + 1)) = pkt' (buf + (iter + 1)) := h _ (by omega) (by omega)
      simp only [not_true_eq_false, hend, if_false, ← htype, ← hlen]
      by_cases hover : buflen < iter + 2 + (pkt (buf + (iter + 1))).toNat
      · rw [if_pos hover, if_pos hover]
        exact ⟨rfl, by simp⟩
      rw [if_neg hover, if_neg hover]
      have hnext := hrest (by omega)
      have hfrom : ∀ p ∈ some (buf + (iter + 2)), buf ≤ p := by
        intro p hp
        obtain rfl := Option.some.inj hp
        omega
      by_cases hcircuit : pkt (buf + iter) = dhcpRaiCircuitId
      · rw [if_pos hcircuit, if_pos hcircuit]
        exact ih (by omega) ⟨hfrom, hs.remoteId⟩ (hnext (Or.inl hcircuit))
      rw [if_neg hcircuit, if_neg hcircuit]
      by_cases hremote : pkt (buf + iter) = dhcpRaiRemoteId
      · rw [if_pos hremote, if_pos hremote]
        exact ih (by omega) ⟨hs.circuitId, hfrom⟩ (hnext (Or.inr hremote))
      · rw [if_neg hremote, if_neg hremote]
        exact ⟨rfl, by simp⟩
    · simp only [hend, not_false_eq_true, if_true]
      refine ⟨trivial, fun s' hs' => ?_⟩
      obtain rfl := Option.some.inj hs'
      exact hs

/-- The verdict on an option of which the code reads received bytes only. -/
theorem validate_twin (h : AgreeTo pkt pkt' n) (hbuf : 0 ≤ buf)
    (hwithin : VerdictWithin pkt buf buflen rId n) (pktInfo : Option82Options) :
    dhcpRelayValidateAgentOption host pkt' buf buflen ifName pktInfo rId
      = dhcpRelayValidateAgentOption host pkt buf buflen ifName pktInfo rId := by
  have hstart : ({} : Suboptions).From buf := ⟨nofun, nofun⟩
  obtain ⟨hloop, hfrom⟩ := suboptionLoop_twin h hbuf (Int.le_refl 0) hstart hwithin.heads
  have hvalues := hwithin.values
  unfold dhcpRelayValidateAgentOption
  rw [hloop]
  -- the loop reads the heads; what follows reads the ids it has found, if it has found both
  cases hcase : suboptionLoop pkt buf buflen (buflen.toNat + 1) 0 {} with
  | none => rfl
  | some s =>
    have hs := hfrom s hcase
    have hread := hvalues s hcase
    obtain ⟨circuitIdLen, circuitIdPtr, remoteIdLen, remoteIdPtr⟩ := s
    cases circuitIdPtr with
    | none => rfl
    | some p =>
      cases remoteIdPtr with
      | none => rfl
      | some q =>
        have hp : buf ≤ p := hs.circuitId p rfl
        have hq : buf ≤ q := hs.remoteId q rfl
        dsimp only
        by_cases hcircuit : circuitIdLen ≠ 4
        · rw [if_pos hcircuit, if_pos hcircuit]
        rw [if_neg hcircuit, if_neg hcircuit]
        obtain ⟨hpend, hqend⟩ := hread p q rfl rfl (not_not.mp hcircuit)
        -- the circuit id is compared in full, the remote id over the length of its form
        rw [h.slice (show 0 ≤ p by omega) (k := 4) hpend]
        cases rId with
        | mac =>
          dsimp only
          by_cases hsix : remoteIdLen ≠ macHeaderLength
          · rw [if_pos hsix, if_pos hsix]
          · have hend : q + macHeaderLength ≤ n := hqend (not_not.mp hsix)
            rw [if_neg hsix, if_neg hsix, h.slice (show 0 ≤ q by omega) hend]
        | ip =>
          dsimp only
          by_cases hfour : remoteIdLen ≠ 4
          · rw [if_pos hfour, if_pos hfour]
          · have hend : q + 4 ≤ n := hqend (not_not.mp hfour)
            rw [if_neg hfour, if_neg hfour, ipAt_agree h (show 0 ≤ q by omega) hend]

end verdict

/-! ## A round of the option loop -/

/-- Two scans that differ in their packets, which agree up to `n` and are `o` and `o'` behind it. -/
structure Scan.Twin (o o' : Packet) (n : ℤ) (s s' : Scan) : Prop where
  twins : Twins o o' n s.pkt s'.pkt
  rest : s' = { s with pkt := s'.pkt }

/-- Two rounds that end alike. -/
inductive StepTwin (o o' : Packet) (n : ℤ) : ScanStep → ScanStep → Prop
  | next {s s' : Scan} (h : s.Twin o o' n s') : StepTwin o o' n (.next s) (.next s')
  | ret (result : Option82Result) {s s' : Scan} (h : s.Twin o o' n s') :
      StepTwin o o' n (.ret result s) (.ret result s')

section reads

variable (cfg : FeatureConfig) (dhcp : ℤ) (s : Scan)

/-- The tag at the parser pointer. -/
def Scan.tag : UInt8 := s.pkt s.optionParserPtr

/-- The length octet behind it. -/
def Scan.len : UInt8 := s.pkt (s.optionParserPtr + 1)

/-- The operation of the message. -/
def Scan.op : UInt8 := s.pkt (dhcp + opOff)

/-- A relay agent option behind the message type. -/
def Scan.AtAgentOption : Prop := s.tag = dhcpAgentOptions ∧ s.isDhcp = true

/-- The round reads no more than the tag: a pad, END, or a relay agent option of a message that
has no agent address, or of a request under a policy other than replace. -/
def Scan.ReadsTagOnly : Prop :=
  s.tag = pad ∨ s.tag = endTag ∨ (s.AtAgentOption ∧
    (ipAt s.pkt (dhcp + giaddrOff) = 0 ∨ (s.op dhcp = bootrequest ∧ cfg.policy ≠ .replace)))

/-- The round reads the value of the option: it is a maximum message size of a request, with the
length 2, or an option that is moved. -/
def Scan.ReadsValue : Prop :=
  s.tag ≠ pad ∧ s.tag ≠ endTag ∧
    ¬(s.AtAgentOption ∧ (s.op dhcp = bootrequest ∨ s.op dhcp = bootreply)) ∧
    if s.tag = dhcpMaxmsgsize ∧ s.op dhcp = bootrequest then s.len = 2
    else s.sp ≠ s.optionParserPtr

/-- A round of the option loop reads no byte of the packet behind `n`. -/
structure Scan.RoundWithin (n : ℤ) : Prop where
  tag : s.optionParserPtr < n
  length : ¬s.ReadsTagOnly cfg dhcp → s.optionParserPtr + 1 < n
  verdict : s.AtAgentOption → ipAt s.pkt (dhcp + giaddrOff) ≠ 0 → s.op dhcp = bootreply →
    VerdictWithin s.pkt (s.optionParserPtr + 2) s.len.toNat cfg.rId n
  value : s.ReadsValue dhcp → s.optionParserPtr + 2 + s.len.toNat ≤ n

variable {cfg dhcp s}

theorem Scan.RoundWithin.mono {n n' : ℤ} (hle : n ≤ n') (h : s.RoundWithin cfg dhcp n) :
    s.RoundWithin cfg dhcp n' where
  tag := Int.lt_of_lt_of_le h.tag hle
  length := fun hmore => Int.lt_of_lt_of_le (h.length hmore) hle
  verdict := fun hat hgi hreply => (h.verdict hat hgi hreply).mono hle
  value := fun hvalue => (h.value hvalue).trans hle

end reads

section round

variable {cfg : FeatureConfig} {host : Host} {ifName : CString} {dhcp max n : ℤ}
variable {s : Scan} {pkt' o o' : Packet}

theorem Scan.Twin.of_pkt (h : Twins o o' n s.pkt pkt') : s.Twin o o' n { s with pkt := pkt' } :=
  ⟨h, rfl⟩

/-- An option that stays. -/
theorem keepOption_twin (h : Twins o o' n s.pkt pkt') (hptr : 0 ≤ s.optionParserPtr)
    (hle : s.sp ≤ s.optionParserPtr) (hlen : s.optionParserPtr + 1 < n)
    (hmove : s.sp ≠ s.optionParserPtr →
      s.optionParserPtr + 2 + (s.pkt (s.optionParserPtr + 1)).toNat ≤ n) :
    s.keepOption.Twin o o' n { s with pkt := pkt' }.keepOption := by
  have hoctet : s.pkt (s.optionParserPtr + 1) = pkt' (s.optionParserPtr + 1) :=
    h.agree _ (by omega) hlen
  by_cases hsp : s.sp = s.optionParserPtr
  · unfold Scan.keepOption
    simp only [hsp, ne_eq, not_true_eq_false, if_false, ← hoctet]
    exact ⟨h, rfl⟩
  · have hend : s.optionParserPtr
        + ((s.pkt (s.optionParserPtr + 1)).toNat + dhcpOptionHeaderLength : ℕ) ≤ n := by
      have hwhole := hmove hsp
      unfold dhcpOptionHeaderLength
      push_cast
      omega
    have hslice := h.agree.slice hptr hend
    have hmoved := @Twins.store _ _ _ n s.sp (slice s.pkt s.optionParserPtr
      ((s.pkt (s.optionParserPtr + 1)).toNat + dhcpOptionHeaderLength)) _ _ h
      (by rw [length_slice]; omega)
    -- the length octet that is read again was received as well
    have hagain := hmoved.agree (s.optionParserPtr + 1) (by omega) hlen
    unfold Scan.keepOption
    simp only [ne_eq, hsp, not_false_eq_true, if_true, memmove, ← hoctet, ← hslice]
    refine ⟨hmoved, ?_⟩
    simp only [hagain]

/-- A skipped option. -/
theorem skipOption_twin (h : Twins o o' n s.pkt pkt') (hptr : 0 ≤ s.optionParserPtr)
    (hlen : s.optionParserPtr + 1 < n) :
    s.skipOption.Twin o o' n { s with pkt := pkt' }.skipOption := by
  have hoctet : s.pkt (s.optionParserPtr + 1) = pkt' (s.optionParserPtr + 1) :=
    h.agree _ (by omega) hlen
  refine ⟨h, ?_⟩
  simp only [Scan.skipOption, hoctet]

/-- A relay agent option after the message type. -/
theorem agentOptionStep_twin (h : Twins o o' n s.pkt pkt') (hdhcp : 0 ≤ dhcp)
    (hfixed : dhcp + optionsStart ≤ n) (hptr : 0 ≤ s.optionParserPtr)
    (hle : s.sp ≤ s.optionParserPtr) (hat : s.AtAgentOption)
    (hread : s.RoundWithin cfg dhcp n) :
    StepTwin o o' n (agentOptionStep cfg host ifName dhcp s)
      (agentOptionStep cfg host ifName dhcp { s with pkt := pkt' }) := by
  obtain ⟨htag, hlength, hverdict, hvalue⟩ := hread
  have hstop : s.tag ≠ pad ∧ s.tag ≠ endTag := by
    rw [hat.1]
    decide
  have hop : s.pkt (dhcp + opOff) = pkt' (dhcp + opOff) :=
    h.agree _ (by unfold opOff; omega) (by unfold opOff; unfold optionsStart at hfixed; omega)
  have hgiaddr : ipAt s.pkt (dhcp + giaddrOff) = ipAt pkt' (dhcp + giaddrOff) :=
    ipAt_agree h.agree (by unfold giaddrOff; omega)
      (by unfold giaddrOff; unfold optionsStart at hfixed; omega)
  -- without an agent address, and for a request that is kept or dropped, the length is not read
  have hone : ipAt s.pkt (dhcp + giaddrOff) ≠ 0 →
      (s.op dhcp = bootrequest → cfg.policy = .replace) → s.optionParserPtr + 1 < n := by
    intro hgi hpolicy
    apply hlength
    rintro (hpad | hend | ⟨-, hzero | ⟨hrequest, hne⟩⟩)
    · exact hstop.1 hpad
    · exact hstop.2 hend
    · exact hgi hzero
    · exact hne (hpolicy hrequest)
  unfold agentOptionStep
  simp only [← hop, ← hgiaddr]
  by_cases hzero : ipAt s.pkt (dhcp + giaddrOff) = 0
  · rw [if_pos hzero, if_pos hzero]
    exact .ret _ (.of_pkt h)
  rw [if_neg hzero, if_neg hzero]
  by_cases hreply : s.pkt (dhcp + opOff) = bootreply
  · have hrequest : s.op dhcp ≠ bootrequest := by
      unfold Scan.op
      rw [hreply]
      decide
    have hlen := hone hzero fun hreq => absurd hreq hrequest
    have hoctet : s.pkt (s.optionParserPtr + 1) = pkt' (s.optionParserPtr + 1) :=
      h.agree _ (by omega) hlen
    have hsame := @validate_twin host ifName cfg.rId _ _ _ _ n h.agree (by omega)
      (hverdict hat hzero hreply) s.pktInfo
    unfold Scan.len at hsame
    rw [if_pos hreply, if_pos hreply, ← hoctet, hsame]
    -- an invalid option ends the processing; after another verdict the received length is skipped
    cases (dhcpRelayValidateAgentOption host s.pkt (s.optionParserPtr + 2)
        (s.pkt (s.optionParserPtr + 1)).toNat ifName s.pktInfo cfg.rId).1 with
    | invalid => exact .ret _ ⟨h, rfl⟩
    | mismatch =>
      exact .next (@skipOption_twin n { s with endPad := none, pktInfo := _ } pkt' _ _ h hptr hlen)
    | ok =>
      exact .next (@skipOption_twin n
        { s with endPad := none, pktInfo := _, goodAgentOption := true } pkt' _ _ h hptr hlen)
  rw [if_neg hreply, if_neg hreply]
  by_cases hrequest : s.pkt (dhcp + opOff) = bootrequest
  · rw [if_pos hrequest, if_pos hrequest]
    -- keep and drop return before the length is read
    cases hpolicy : cfg.policy with
    | keep => exact .ret _ ⟨h, rfl⟩
    | drop => exact .ret _ ⟨h, rfl⟩
    | replace =>
      exact .next (@skipOption_twin n { s with endPad := none } pkt' _ _ h hptr
        (hone hzero fun _ => hpolicy))
  · have hlen := hone hzero fun hreq => absurd hreq hrequest
    rw [if_neg hrequest, if_neg hrequest]
    refine .next
      (@keepOption_twin n { s with endPad := none } pkt' _ _ h hptr hle hlen fun hsp => ?_)
    refine hvalue ⟨hstop.1, hstop.2, fun hboth => ?_, ?_⟩
    · exact hboth.2.elim hrequest hreply
    · rw [if_neg fun hboth => hrequest hboth.2]
      exact hsp

/-- A round at an option with a length that is kept, and not as a relay agent option. -/
theorem optionStep_kept_twin (h : Twins o o' n s.pkt pkt') (hdhcp : 0 ≤ dhcp)
    (hfixed : dhcp + optionsStart ≤ n) (hptr : 0 ≤ s.optionParserPtr)
    (hle : s.sp ≤ s.optionParserPtr) (hread : s.RoundWithin cfg dhcp n)
    (hpad : s.pkt s.optionParserPtr ≠ pad) (hend : s.pkt s.optionParserPtr ≠ endTag)
    (hat : ¬s.AtAgentOption) :
    StepTwin o o' n (optionStep cfg host ifName dhcp max s)
      (optionStep cfg host ifName dhcp max { s with pkt := pkt' }) := by
  have htag : s.pkt s.optionParserPtr = pkt' s.optionParserPtr := h.agree _ hptr hread.tag
  have hop : s.pkt (dhcp + opOff) = pkt' (dhcp + opOff) :=
    h.agree _ (by unfold opOff; omega) (by unfold opOff; unfold optionsStart at hfixed; omega)
  have hlen : s.optionParserPtr + 1 < n := by
    apply hread.length
    rintro (hp | he | ⟨hagent, -⟩)
    · exact hpad hp
    · exact hend he
    · exact hat hagent
  -- the body is read if it is moved, or for the two octets of a maximum message size
  have hvalue : (if s.tag = dhcpMaxmsgsize ∧ s.op dhcp = bootrequest then s.len = 2
      else s.sp ≠ s.optionParserPtr) →
      s.optionParserPtr + 2 + (s.pkt (s.optionParserPtr + 1)).toNat ≤ n := fun hif =>
    hread.value ⟨hpad, hend, fun hagent => hat hagent.1, hif⟩
  have hmove : ¬(s.tag = dhcpMaxmsgsize ∧ s.op dhcp = bootrequest) → s.sp ≠ s.optionParserPtr →
      s.optionParserPtr + 2 + (s.pkt (s.optionParserPtr + 1)).toNat ≤ n := by
    intro hother hsp
    apply hvalue
    rw [if_neg hother]
    exact hsp
  have hoctet : s.pkt (s.optionParserPtr + 1) = pkt' (s.optionParserPtr + 1) :=
    h.agree _ (by omega) hlen
  unfold optionStep
  simp only [← htag, ← hop]
  rw [if_neg hpad, if_neg hpad, if_neg hend, if_neg hend, ← hoctet]
  by_cases hmsg : s.pkt s.optionParserPtr = dhcpMsgtype
  · have hother : ¬(s.tag = dhcpMaxmsgsize ∧ s.op dhcp = bootrequest) := by
      unfold Scan.tag
      rw [hmsg]
      exact fun hboth => absurd hboth.1 (by decide)
    rw [if_pos hmsg, if_pos hmsg]
    exact .next
      (@keepOption_twin n { s with isDhcp := true } pkt' _ _ h hptr hle hlen (hmove hother))
  rw [if_neg hmsg, if_neg hmsg]
  by_cases hmax : s.pkt s.optionParserPtr = dhcpMaxmsgsize
  · rw [if_pos hmax, if_pos hmax]
    by_cases hrequest : s.pkt (dhcp + opOff) = bootrequest
    · rw [if_pos hrequest, if_pos hrequest]
      -- the size is read from the body
      by_cases htwo : s.pkt (s.optionParserPtr + 1) = 2
      · have hbody := hvalue (by rw [if_pos ⟨hmax, hrequest⟩]; exact htwo)
        have hin : ntohs s.pkt (s.optionParserPtr + 2) = ntohs pkt' (s.optionParserPtr + 2) := by
          rw [htwo] at hbody
          exact ntohs_agree h.agree (by omega) hbody
        rw [if_pos htwo, if_pos htwo, ← hin]
        exact .next (@keepOption_twin n { s with maxMsgSize := _ } pkt' _ _ h hptr hle hlen
          fun _ => hbody)
      · rw [if_neg htwo, if_neg htwo]
        exact .ret _ ⟨h, rfl⟩
    · rw [if_neg hrequest, if_neg hrequest]
      exact .next (keepOption_twin h hptr hle hlen (hmove fun hboth => hrequest hboth.2))
  rw [if_neg hmax, if_neg hmax]
  have hother : ¬(s.tag = dhcpMaxmsgsize ∧ s.op dhcp = bootrequest) := fun hboth => hmax hboth.1
  by_cases hagent : s.pkt s.optionParserPtr = dhcpAgentOptions
  · have htyped : ¬s.isDhcp = true := fun htyped => hat ⟨hagent, htyped⟩
    rw [if_pos hagent, if_pos hagent, if_pos (by simp [htyped]), if_pos (by simp [htyped])]
    exact .next (keepOption_twin h hptr hle hlen (hmove hother))
  · rw [if_neg hagent, if_neg hagent]
    exact .next (keepOption_twin h hptr hle hlen (hmove hother))

/-- A round that reads no further than `n`. -/
theorem optionStep_twin (h : Twins o o' n s.pkt pkt') (hdhcp : 0 ≤ dhcp)
    (hfixed : dhcp + optionsStart ≤ n) (hptr : 0 ≤ s.optionParserPtr)
    (hle : s.sp ≤ s.optionParserPtr) (hread : s.RoundWithin cfg dhcp n) :
    StepTwin o o' n (optionStep cfg host ifName dhcp max s)
      (optionStep cfg host ifName dhcp max { s with pkt := pkt' }) := by
  have htag : s.pkt s.optionParserPtr = pkt' s.optionParserPtr := h.agree _ hptr hread.tag
  have hop : s.pkt (dhcp + opOff) = pkt' (dhcp + opOff) :=
    h.agree _ (by unfold opOff; omega) (by unfold opOff; unfold optionsStart at hfixed; omega)
  by_cases hkept : s.pkt s.optionParserPtr ≠ pad ∧ s.pkt s.optionParserPtr ≠ endTag ∧
      ¬s.AtAgentOption
  · exact optionStep_kept_twin h hdhcp hfixed hptr hle hread hkept.1 hkept.2.1 hkept.2.2
  unfold optionStep
  simp only [← htag, ← hop]
  have htagRead := hread.tag
  -- PAD and END are one octet that goes to the write position
  have hone := @Twins.store _ _ _ n s.sp [s.pkt s.optionParserPtr] _ _ h
    (by rw [List.length_singleton]; omega)
  by_cases hpad : s.pkt s.optionParserPtr = pad
  · rw [if_pos hpad, if_pos hpad]
    exact .next ⟨hone, rfl⟩
  rw [if_neg hpad, if_neg hpad]
  by_cases hend : s.pkt s.optionParserPtr = endTag
  · have hne : s.pkt s.optionParserPtr ≠ dhcpMsgtype ∧
        s.pkt s.optionParserPtr ≠ dhcpMaxmsgsize := by
      rw [hend]
      decide
    rw [if_neg hne.1, if_neg hne.1, if_neg hne.2, if_neg hne.2, if_pos hend, if_pos hend]
    by_cases hsp : s.sp = s.optionParserPtr
    · simp only [hsp, ne_eq, not_true_eq_false, if_false]
      exact .next ⟨h, rfl⟩
    · simp only [hsp, ne_eq, not_false_eq_true, if_true]
      exact .next ⟨hone, rfl⟩
  -- what is left is an agent option behind the message type
  obtain ⟨hagent, htyped⟩ : s.AtAgentOption := by
    by_contra hat
    exact hkept ⟨hpad, hend, hat⟩
  have hne : s.pkt s.optionParserPtr ≠ dhcpMsgtype ∧
      s.pkt s.optionParserPtr ≠ dhcpMaxmsgsize := by
    rw [show s.pkt s.optionParserPtr = dhcpAgentOptions from hagent]
    decide
  have hagent' : s.pkt s.optionParserPtr = dhcpAgentOptions := hagent
  rw [if_neg hne.1, if_neg hne.1, if_neg hne.2, if_neg hne.2, if_neg hend, if_neg hend,
    if_pos hagent', if_pos hagent', if_neg (by simp [htyped]), if_neg (by simp [htyped])]
  exact agentOptionStep_twin h hdhcp hfixed hptr hle ⟨hagent, htyped⟩ hread

end round

/-! ## The option loop -/

section loop

variable (cfg : FeatureConfig) (host : Host) (ifName : CString) (dhcp max n : ℤ)

/-- A round of the loop that goes on. -/
def Scan.Advances (s s' : Scan) : Prop :=
  s.optionParserPtr < max ∧ optionStep cfg host ifName dhcp max s = .next s'

/-- The loop comes from one scan to the other. -/
def Scan.Reaches : Scan → Scan → Prop :=
  Relation.ReflTransGen (Scan.Advances cfg host ifName dhcp max)

/-- The rounds of the option loop read no further than `n`. -/
def LoopWithin (s : Scan) : Prop :=
  ∀ s', s.Reaches cfg host ifName dhcp max s' → s'.optionParserPtr < max →
    s'.RoundWithin cfg dhcp n

variable {cfg host ifName dhcp max n} {s s' : Scan} {pkt' : Packet}

theorem LoopWithin.advance (h : LoopWithin cfg host ifName dhcp max n s)
    (hstep : s.Advances cfg host ifName dhcp max s') : LoopWithin cfg host ifName dhcp max n s' :=
  fun s₁ hreach => h s₁ (.head hstep hreach)

theorem LoopWithin.mono {n' : ℤ} (hle : n ≤ n') (h : LoopWithin cfg host ifName dhcp max n s) :
    LoopWithin cfg host ifName dhcp max n' s :=
  fun s' hreach hlt => (h s' hreach hlt).mono hle

/-- The parser pointer moves up, if it does not go to the end. -/
theorem optionStep_ptr (h : optionStep cfg host ifName dhcp max s = .next s') :
    s.optionParserPtr < s'.optionParserPtr ∨ s'.optionParserPtr = max := by
  rcases optionStep_cases h with rfl | rfl | ⟨endPad, isDhcp, maxMsgSize, rfl, -⟩
    | ⟨pktInfo, good, rfl, -⟩
  · left
    simp only
    omega
  · exact Or.inr rfl
  · left
    unfold Scan.keepOption dhcpOptionHeaderLength
    simp only
    omega
  · left
    unfold Scan.skipOption dhcpOptionHeaderLength
    simp only
    omega

/-- Where the loop ends, if it has rounds enough to come to the end. -/
theorem optionLoop_reaches {rounds : ℕ}
    (h : optionLoop cfg host ifName dhcp max rounds s = .next s') :
    s.Reaches cfg host ifName dhcp max s' ∧
      ((max - s.optionParserPtr).toNat ≤ rounds → max ≤ s'.optionParserPtr) := by
  induction rounds generalizing s with
  | zero =>
    cases h
    exact ⟨.refl, fun hle => by omega⟩
  | succ rounds ih =>
    unfold optionLoop at h
    split at h
    · rename_i hlt
      cases hstep : optionStep cfg host ifName dhcp max s with
      | ret result s₁ =>
        rw [hstep] at h
        cases h
      | next s₁ =>
        rw [hstep] at h
        obtain ⟨hreach, hend⟩ := ih h
        -- a round moves the read position, so that the rounds suffice for what is left
        have hmoves := optionStep_ptr hstep
        exact ⟨.head ⟨hlt, hstep⟩ hreach, fun hle => hend (by omega)⟩
    · cases h
      exact ⟨.refl, fun _ => by omega⟩

/-- A loop that returns does so in a round it comes to. -/
theorem optionLoop_returns {rounds : ℕ} {result : Option82Result}
    (h : optionLoop cfg host ifName dhcp max rounds s = .ret result s') :
    ∃ s₁, s.Reaches cfg host ifName dhcp max s₁ ∧ s₁.optionParserPtr < max ∧
      optionStep cfg host ifName dhcp max s₁ = .ret result s' := by
  induction rounds generalizing s with
  | zero => cases h
  | succ rounds ih =>
    unfold optionLoop at h
    split at h
    · rename_i hlt
      cases hstep : optionStep cfg host ifName dhcp max s with
      | ret result₁ s₁ =>
        rw [hstep] at h
        cases h
        exact ⟨s, .refl, hlt, hstep⟩
      | next s₁ =>
        rw [hstep] at h
        obtain ⟨s₂, hreach, hlast⟩ := ih h
        exact ⟨s₂, .head ⟨hlt, hstep⟩ hreach, hlast⟩
    · cases h

/-- With rounds enough the loop comes to any scan it reaches, and goes on from there. -/
theorem Scan.Reaches.loop (h : s.Reaches cfg host ifName dhcp max s') {rounds : ℕ}
    (hrounds : (max - s.optionParserPtr).toNat ≤ rounds) :
    ∃ left, (max - s'.optionParserPtr).toNat ≤ left ∧
      optionLoop cfg host ifName dhcp max rounds s
        = optionLoop cfg host ifName dhcp max left s' := by
  induction h using Relation.ReflTransGen.head_induction_on generalizing rounds with
  | refl => exact ⟨rounds, hrounds, rfl⟩
  | @head s s₁ hgoes hreach ih =>
    obtain ⟨hlt, hstep⟩ := hgoes
    obtain ⟨k, rfl⟩ : ∃ k, rounds = k + 1 := Nat.exists_eq_succ_of_ne_zero (by omega)
    have hmoves := optionStep_ptr hstep
    obtain ⟨left, hleft, hloop⟩ := @ih k (by omega)
    refine ⟨left, hleft, ?_⟩
    rw [← hloop, optionLoop, if_pos hlt, hstep]

/-- The write pointer stays behind the parser pointer. -/
theorem optionStep_sp (h : optionStep cfg host ifName dhcp max s = .next s')
    (hle : s.sp ≤ s.optionParserPtr) (hlt : s.optionParserPtr < max) :
    s'.sp ≤ s'.optionParserPtr := by
  rcases optionStep_cases h with rfl | rfl | ⟨endPad, isDhcp, maxMsgSize, rfl, -⟩
    | ⟨pktInfo, good, rfl, -⟩
  · simp only
    omega
  · simp only
    omega
  · unfold Scan.keepOption
    simp only
    omega
  · unfold Scan.skipOption
    simp only
    omega

theorem optionLoop_twin {o o' : Packet} (hdhcp : 0 ≤ dhcp) (hfixed : dhcp + optionsStart ≤ n)
    {rounds : ℕ} (h : Twins o o' n s.pkt pkt')
    (hptr : s.optionParserPtr < max → 0 ≤ s.optionParserPtr)
    (hle : s.sp ≤ s.optionParserPtr) (hwithin : LoopWithin cfg host ifName dhcp max n s) :
    StepTwin o o' n (optionLoop cfg host ifName dhcp max rounds s)
      (optionLoop cfg host ifName dhcp max rounds { s with pkt := pkt' }) := by
  induction rounds generalizing s pkt' with
  | zero => exact .next (.of_pkt h)
  | succ rounds ih =>
    unfold optionLoop
    by_cases hmax : s.optionParserPtr < max
    · have hround := @optionStep_twin cfg host ifName dhcp max n s pkt' o o' h hdhcp hfixed
        (hptr hmax) hle (hwithin s .refl hmax)
      rw [if_pos hmax, if_pos hmax]
      generalize hleft : optionStep cfg host ifName dhcp max s = left at hround
      generalize optionStep cfg host ifName dhcp max { s with pkt := pkt' } = right at hround
      cases hround with
      | ret result htwin => exact .ret result htwin
      | @next s₁ s₁' htwin =>
        have hptr₁ : s₁.optionParserPtr < max → 0 ≤ s₁.optionParserPtr := by
          intro hlt
          have hstart := hptr hmax
          have hmoves := optionStep_ptr hleft
          omega
        dsimp only
        rw [htwin.rest]
        exact ih htwin.twins hptr₁ (optionStep_sp hleft hle hmax) (hwithin.advance ⟨hmax, hleft⟩)
    · rw [if_neg hmax, if_neg hmax]
      exact .next (.of_pkt h)

theorem scanOptions_twin {pkt pkt' : Packet} {pktInfo : Option82Options} (h : AgreeTo pkt pkt' n)
    (hfixed : Udpfwd.dhcp pkt + optionsStart ≤ n)
    (hwithin : LoopWithin cfg host ifName (Udpfwd.dhcp pkt) (optionsMax pkt) n
      (Scan.start pkt pktInfo)) :
    StepTwin pkt pkt' n (scanOptions cfg host ifName pkt pktInfo)
      (scanOptions cfg host ifName pkt' pktInfo) := by
  have hpos : 0 ≤ udph pkt := Int.natCast_nonneg _
  have hwhere : Udpfwd.dhcp pkt = udph pkt + 8 := rfl
  unfold optionsStart at hfixed
  have hdhcp : Udpfwd.dhcp pkt = Udpfwd.dhcp pkt' := dhcp_agree h (by omega)
  have hudph : udph pkt = udph pkt' := by
    unfold Udpfwd.dhcp at hdhcp
    omega
  have hulen : ntohs pkt (udph pkt + uhUlenOff) = ntohs pkt' (udph pkt + uhUlenOff) :=
    ntohs_agree h (by unfold uhUlenOff; omega) (by unfold uhUlenOff; omega)
  have hmax : optionsMax pkt' = optionsMax pkt := by
    unfold optionsMax dhcpPktlen
    rw [← hdhcp, ← hudph, hulen]
  have hstart : Scan.start pkt' pktInfo = { Scan.start pkt pktInfo with pkt := pkt' } := by
    unfold Scan.start
    rw [hdhcp]
  unfold scanOptions
  rw [hmax, hstart, ← hdhcp]
  have hptr : (Scan.start pkt pktInfo).optionParserPtr = Udpfwd.dhcp pkt + 236 + 4 := rfl
  exact optionLoop_twin (by omega) (by unfold optionsStart; omega) (.of_agree h)
    (fun _ => by omega) (Int.le_refl _) hwithin

end loop

end Udpfwd
end IpApps
