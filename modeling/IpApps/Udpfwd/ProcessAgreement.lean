import IpApps.Udpfwd.LeftAlone
import IpApps.Udpfwd.PacketAgreement

/-!
# Option 82 processing on two packets

Two packets that agree on the bytes that option 82 processing reads have the same verdict. A packet
that is not rewritten is unchanged behind these bytes. What is written over the end of a rewritten
request depends on nothing that was there.
-/

namespace IpApps
namespace Udpfwd

open Memory Endian

/-! ## Where the option loop ends -/

section call

variable (c : Option82Call) (pkt : Packet)

/-- The option loop comes to the scan. -/
def Option82Call.Reaches (s : Scan) : Prop :=
  (Scan.start pkt c.pktInfo).Reaches c.cfg c.host c.ifName (dhcp pkt) (optionsMax pkt) s

/-- The option loop comes to its end with the scan. -/
structure Option82Call.Ends (s : Scan) : Prop where
  works : Works c pkt
  reached : c.Reaches pkt s
  ended : optionsMax pkt ≤ s.optionParserPtr

/-- A request that goes on as it came: it is not processed, it keeps its relay agent option, or it
has no message type. -/
inductive Option82Call.LeavesRequest : Prop
  | notProcessed (h : ¬Works c pkt)
  | kept {s : Scan} (hworks : Works c pkt) (hreached : c.Reaches pkt s)
      (hlt : s.optionParserPtr < optionsMax pkt) (hat : s.AtAgentOption) (hgi : giaddr pkt ≠ 0)
      (hpolicy : c.cfg.policy = .keep)
  | untyped {s : Scan} (hends : c.Ends pkt s) (hdhcp : s.isDhcp = false)

variable {c pkt} {s : Scan}

theorem Option82Call.Ends.scan (h : c.Ends pkt s) :
    scanOptions c.cfg c.host c.ifName pkt c.pktInfo = .next s := by
  obtain ⟨left, -, hloop⟩ := h.reached.loop (Nat.le_refl _)
  unfold scanOptions
  dsimp only
  rw [hloop]
  exact optionLoop_end h.ended left

theorem Option82Call.ends_of_scan (hworks : Works c pkt)
    (hscan : scanOptions c.cfg c.host c.ifName pkt c.pktInfo = .next s) : c.Ends pkt s := by
  obtain ⟨hreached, hended⟩ := optionLoop_reaches hscan
  exact ⟨hworks, hreached, hended (Nat.le_refl _)⟩

/-- What the option loop leaves of a packet when it ends. -/
theorem scanOptions_behind
    (hscan : scanOptions c.cfg c.host c.ifName pkt c.pktInfo = .next s) :
    (∀ a < dhcp pkt + optionsStart, s.pkt a = pkt a) ∧
      dhcp pkt + optionsStart ≤ s.appendPtr ∧ dhcp pkt + optionsStart ≤ s.sp ∧
      (dhcpOp pkt = bootrequest → s.pktInfo = c.pktInfo) := by
  obtain ⟨hbehind, hinfo⟩ := (start_behind pkt c.pktInfo).loop
    (by unfold opOff optionsStart; omega) hscan
  exact ⟨hbehind.front, hbehind.appendPtr, hbehind.sp, hinfo⟩

/-- No scan that the loop comes to has another operation or agent address. -/
theorem Option82Call.Reaches.front (h : c.Reaches pkt s) :
    Behind (dhcp pkt + optionsStart) pkt s := by
  unfold Option82Call.Reaches at h
  induction h with
  | refl => exact start_behind pkt c.pktInfo
  | tail _ hstep ih => exact (ih.step (by unfold opOff optionsStart; omega) hstep.2).1

theorem Option82Call.Reaches.op (h : c.Reaches pkt s) : s.op (dhcp pkt) = dhcpOp pkt :=
  h.front.front _ (by unfold opOff optionsStart; omega)

theorem Option82Call.Reaches.giaddr (h : c.Reaches pkt s) :
    ipAt s.pkt (dhcp pkt + giaddrOff) = giaddr pkt := by
  refine ipAt_congr fun i hi => h.front.front _ ?_
  unfold giaddrOff optionsStart
  omega

/-- A request that keeps relay agent options is not moved. -/
theorem Option82Call.Reaches.unmoved (h : c.Reaches pkt s) (hop : dhcpOp pkt = bootrequest)
    (hpolicy : c.cfg.policy ≠ .replace) :
    s.pkt = pkt ∧ (s.sp = s.optionParserPtr ∨ optionsMax pkt ≤ s.optionParserPtr) := by
  unfold Option82Call.Reaches at h
  -- from the first round on: nothing is left out, so the writing pointer keeps up
  induction h with
  | refl => exact ⟨rfl, Or.inl rfl⟩
  | @tail s s' hreach hstep ih =>
    obtain ⟨hpkt, hptr⟩ := ih
    obtain ⟨hlt, hstep⟩ := hstep
    have hs : s.Unmoved pkt := ⟨hpkt, hptr.resolve_right (by omega)⟩
    have hrequest : s.pkt (dhcp pkt + opOff) = bootrequest := by
      rw [hpkt]
      exact hop
    rcases optionStep_cases hstep with rfl | rfl | ⟨endPad, isDhcp, maxMsgSize, rfl, -⟩
      | ⟨pktInfo, good, rfl, hreplaced, -⟩
    -- a pad writes the byte that is there
    · refine ⟨hs.store, Or.inl ?_⟩
      show s.sp + 1 = s.optionParserPtr + 1
      rw [hs.ptr]
    -- END takes the parser pointer to the end
    · refine ⟨?_, Or.inr (Int.le_refl _)⟩
      show (if s.sp ≠ s.optionParserPtr then _ else s.pkt) = pkt
      rw [if_neg (not_not_intro hs.ptr), hpkt]
    -- an option that is kept stays where it is
    · have hkept : Scan.Unmoved pkt { s with endPad, isDhcp, maxMsgSize } := ⟨hs.pkt, hs.ptr⟩
      rw [hkept.keepOption]
      refine ⟨hpkt, Or.inl ?_⟩
      show s.sp + _ = s.optionParserPtr + _
      rw [hs.ptr]
    -- only under the policy replace a request loses an option
    · exact absurd (hreplaced hrequest).2 hpolicy

/-- What the function does after its option loop. -/
def Option82Call.finish (c : Option82Call) (dhcp : ℤ) (s : Scan) : Option82Outcome :=
  finishOption82 c.cfg c.host c.ifIndex c.ifName c.bootpGw dhcp s

theorem Option82Call.Ends.process (h : c.Ends pkt s) : c.process pkt = c.finish (dhcp pkt) s := by
  rw [process_of_works h.works, h.scan]
  rfl

/-- The loop returns at a relay agent option that a request keeps. -/
theorem Option82Call.Reaches.scan_kept (h : c.Reaches pkt s) (hop : dhcpOp pkt = bootrequest)
    (hlt : s.optionParserPtr < optionsMax pkt) (hat : s.AtAgentOption) (hgi : Udpfwd.giaddr pkt ≠ 0)
    (hpolicy : c.cfg.policy = .keep) :
    ∃ s', scanOptions c.cfg c.host c.ifName pkt c.pktInfo = .ret .valid s' ∧ s'.pkt = pkt := by
  obtain ⟨hpkt, hptr⟩ := h.unmoved hop (by rw [hpolicy]; decide)
  have hs : s.Unmoved pkt := ⟨hpkt, hptr.resolve_right (by omega)⟩
  have htag : pkt s.optionParserPtr = dhcpAgentOptions := by
    rw [← hpkt]
    exact hat.1
  obtain ⟨s', hstep, hsame⟩ := @Scan.Unmoved.agent c.cfg c.host c.ifName (optionsMax pkt) _ _ hs
    hat.2 htag hpolicy hgi hop
  obtain ⟨left, hleft, hloop⟩ := h.loop (Nat.le_refl _)
  obtain ⟨k, rfl⟩ : ∃ k, left = k + 1 := Nat.exists_eq_succ_of_ne_zero (by omega)
  refine ⟨s', ?_, hsame⟩
  unfold scanOptions
  dsimp only
  rw [hloop, optionLoop, if_pos hlt, hstep]

theorem Option82Call.LeavesRequest.process (h : c.LeavesRequest pkt)
    (hop : dhcpOp pkt = bootrequest) :
    (c.process pkt).result ≠ .dropped ∧ (c.process pkt).pkt = pkt := by
  cases h with
  | notProcessed h =>
    obtain ⟨hresult, hpkt⟩ := process_of_not_works h
    rw [hresult, hpkt]
    exact ⟨nofun, rfl⟩
  | kept hworks hreached hlt hat hgi hpolicy =>
    obtain ⟨s', hscan, hsame⟩ := hreached.scan_kept hop hlt hat hgi hpolicy
    rw [process_of_works hworks, hscan]
    exact ⟨nofun, hsame⟩
  | @untyped s hends hdhcp =>
    have hsame := (start_unmoved pkt c.pktInfo).loop hends.scan hdhcp
    rw [hends.process]
    unfold Option82Call.finish finishOption82
    rw [if_pos (by simp [hdhcp])]
    exact ⟨nofun, hsame⟩

/-- A round that returns drops the packet, or it is at a relay agent option that a request keeps. -/
theorem optionStep_returns {cfg : FeatureConfig} {host : Host} {ifName : CString} {dhcp max : ℤ}
    {s s' : Scan} {result : Option82Result}
    (h : optionStep cfg host ifName dhcp max s = .ret result s') (hne : result ≠ .dropped) :
    s.AtAgentOption ∧ ipAt s.pkt (dhcp + giaddrOff) ≠ 0 ∧ s.op dhcp = bootrequest ∧
      cfg.policy = .keep := by
  have hnext (s₁ : Scan) : ScanStep.next s₁ ≠ .ret result s' := nofun
  have hdrop {s₁ : Scan} (heq : ScanStep.ret .dropped s₁ = .ret result s') : False :=
    hne (ScanStep.ret.inj heq).1.symm
  unfold optionStep at h
  simp only at h
  -- through the tags in the order of the source: pad, message type, maximum message size,
  -- END, relay agent option, any other
  split at h
  · exact absurd h (hnext _)
  split at h
  · exact absurd h (hnext _)
  split at h
  · split at h
    · split at h
      · exact absurd h (hnext _)
      · exact (hdrop h).elim
    · exact absurd h (hnext _)
  split at h
  · exact absurd h (hnext _)
  split at h
  · rename_i hagent
    split at h
    · exact absurd h (hnext _)
    rename_i htyped
    unfold agentOptionStep at h
    dsimp only at h
    split at h
    · exact (hdrop h).elim
    rename_i hgi
    split at h
    · split at h
      · exact (hdrop h).elim
      · exact absurd h (hnext _)
      · exact absurd h (hnext _)
    split at h
    · rename_i hrequest
      split at h
      · rename_i hpolicy
        exact ⟨⟨hagent, not_not.mp htyped⟩, hgi, hrequest, hpolicy⟩
      · exact (hdrop h).elim
      · exact absurd h (hnext _)
    · exact absurd h (hnext _)
  · exact absurd h (hnext _)

/-- A request that is not dropped goes on as it came, or it is rewritten. -/
theorem process_request (h : (c.process pkt).result ≠ .dropped) :
    c.LeavesRequest pkt ∨ ∃ s, c.Ends pkt s ∧ s.isDhcp = true := by
  by_cases hworks : Works c pkt
  · cases hscan : scanOptions c.cfg c.host c.ifName pkt c.pktInfo with
    | ret result s =>
      rw [process_of_works hworks, hscan] at h
      obtain ⟨s₁, hreached, hlt, hstep⟩ := optionLoop_returns hscan
      obtain ⟨hat, hgi, -, hpolicy⟩ := optionStep_returns hstep h
      have hreached' : c.Reaches pkt s₁ := hreached
      rw [hreached'.giaddr] at hgi
      exact Or.inl (.kept hworks hreached' hlt hat hgi hpolicy)
    | next s =>
      have hends := Option82Call.ends_of_scan hworks hscan
      cases hdhcp : s.isDhcp with
      | false => exact Or.inl (.untyped hends hdhcp)
      | true => exact Or.inr ⟨s, hends, hdhcp⟩
  · exact Or.inl (.notProcessed hworks)

/-- The first byte stays, and with it the place of the headers. -/
theorem process_first (c : Option82Call) (pkt : Packet) : (c.process pkt).pkt 0 = pkt 0 := by
  have hpos : 0 ≤ udph pkt := Int.natCast_nonneg _
  have hwhere : dhcp pkt = udph pkt + 8 := rfl
  -- no branch writes in front of the options but the lengths and the checksums
  by_cases hworks : Works c pkt
  · rw [process_of_works hworks]
    cases hscan : scanOptions c.cfg c.host c.ifName pkt c.pktInfo with
    | ret result s =>
      exact (start_behind pkt c.pktInfo).loop_ret (by unfold opOff optionsStart; omega) hscan 0
        (by unfold optionsStart; omega)
    | next s =>
      obtain ⟨hfront, happend, hsp, -⟩ := scanOptions_behind hscan
      unfold optionsStart at hfront happend hsp
      have hfirst : s.pkt 0 = pkt 0 := hfront 0 (by omega)
      have hptr : s.appendPtr - 1 ≤ s.optionPtr := by
        unfold Scan.optionPtr
        split <;> omega
      simp only [finishOption82]
      split
      · exact hfirst
      split
      · split <;> exact hfirst
      show updateLengths (dhcp pkt) _ _ 0 = pkt 0
      split
      · unfold addAgentOption
        split
        · rw [updateLengths_first _ (by rw [writeAgentOption_stores]; dsimp only; omega),
            writeAgentOption_front _ _ (by omega), hfirst]
        · exact (updateLengths_first _ (by dsimp only; omega)).trans hfirst
      · exact (updateLengths_first _ (by dsimp only; omega)).trans hfirst
  · rw [(process_of_not_works hworks).2]

end call

/-! ## The new option and the lengths -/

section added

variable (c : Option82Call) (dhcp : ℤ) (s : Scan)

/-- What becomes of the packet where the option loop ends, and where the message ends then. -/
def Option82Call.added : Packet × ℤ :=
  addAgentOption c.host c.ifIndex c.ifName c.bootpGw c.cfg.rId dhcp s

/-- The length of a request that was rewritten. -/
def Option82Call.newLength : ℕ := max ((c.added dhcp s).2 - dhcp).toNat minbootplen

/-- Where the writes of the new option end, or the options if there is no room for it. -/
def Option82Call.addedReach : ℤ :=
  if s.hasRoom dhcp c.cfg.rId then
    s.optionPtr + optionReach c.host c.ifName c.bootpGw c.cfg.rId c.pktInfo
  else s.appendPtr

/-- Where the writes of a rewritten request end. -/
def Option82Call.writtenEnd : ℤ := max (c.addedReach dhcp s) (dhcp + c.newLength dhcp s)

/-- The remote id does not fill its place in the new option. -/
def Option82Call.LeavesGap : Prop :=
  s.hasRoom dhcp c.cfg.rId = true ∧
    (remoteIdBytes c.host c.ifName c.bootpGw c.cfg.rId c.pktInfo).length < remoteIdLength c.cfg.rId

/-- What is sent of a rewritten request was received or is written: the options that were left in
it, and what the remote id leaves of its place. -/
structure Option82Call.OptionsWithin (n : ℤ) : Prop where
  options : s.appendPtr ≤ n
  gap : c.LeavesGap dhcp s → s.optionPtr + 10 + remoteIdLength c.cfg.rId ≤ n

/-- A cell of the message that the end of the function does not write: it lies in the gap behind the
remote id, among the options if there is no room for a new one, or behind all that is written. -/
def Option82Call.Unwritten (a : ℤ) : Prop :=
  c.writtenEnd dhcp s ≤ a ∨
    (¬s.hasRoom dhcp c.cfg.rId = true ∧ a < s.appendPtr) ∨
    (s.hasRoom dhcp c.cfg.rId = true ∧ s.optionPtr + 10
        + (remoteIdBytes c.host c.ifName c.bootpGw c.cfg.rId c.pktInfo).length ≤ a ∧
      a < s.optionPtr + 10 + remoteIdLength c.cfg.rId)

end added

section finish

variable {c : Option82Call} {dhcp sp n : ℤ} {pkt pkt' : Packet} {s : Scan}

theorem optionPtr_le : s.optionPtr ≤ s.appendPtr ∧ s.appendPtr ≤ s.optionPtr + 1 := by
  unfold Scan.optionPtr
  split <;> omega

theorem optionReach_ge (host : Host) (ifName : CString) (bootpGw : IpAddress) (rId : RemoteId)
    (pktInfo : Option82Options) :
    10 + remoteIdLength rId + 1 ≤ optionReach host ifName bootpGw rId pktInfo := by
  unfold optionReach
  omega

theorem writeAgentOption_agree (host : Host) (ifIndex : UInt32) (ifName : CString)
    (bootpGw : IpAddress) (rId : RemoteId) (pktInfo : Option82Options) (h : AgreeTo pkt pkt' n) :
    AgreeTo (writeAgentOption host ifIndex ifName bootpGw rId pktInfo pkt sp).1
      (writeAgentOption host ifIndex ifName bootpGw rId pktInfo pkt' sp).1 n := by
  rw [writeAgentOption_stores, writeAgentOption_stores]
  exact ((h.store _ _).store _ _).store _ _

/-- The new option extends what agrees. -/
theorem writeAgentOption_extends {host : Host} {ifIndex : UInt32} {ifName : CString}
    {bootpGw : IpAddress} {rId : RemoteId} {pktInfo : Option82Options} (h : AgreeTo pkt pkt' n)
    (hn : sp ≤ n)
    (hgap : (remoteIdBytes host ifName bootpGw rId pktInfo).length < remoteIdLength rId →
      sp + 10 + remoteIdLength rId ≤ n) :
    AgreeTo (writeAgentOption host ifIndex ifName bootpGw rId pktInfo pkt sp).1
      (writeAgentOption host ifIndex ifName bootpGw rId pktInfo pkt' sp).1
      (max n (sp + optionReach host ifName bootpGw rId pktInfo)) := by
  have hreach : (optionReach host ifName bootpGw rId pktInfo : ℤ)
      = 10 + max (remoteIdBytes host ifName bootpGw rId pktInfo).length
          (remoteIdLength rId + 1) := by
    unfold optionReach
    push_cast
    rfl
  rw [writeAgentOption_stores, writeAgentOption_stores]
  generalize remoteIdBytes host ifName bootpGw rId pktInfo = remoteId at hgap hreach ⊢
  have hhead := @AgreeTo.store_extend _ _ _ n (max n (sp + 10)) sp
    (agentOptionHead ifIndex rId (remoteIdLength rId)) h hn
    (by rw [length_agentOptionHead]; omega)
  have hid := @AgreeTo.store_extend _ _ _ _ (max n (sp + 10 + remoteId.length)) (sp + 10) remoteId
    hhead (by omega) (by omega)
  refine hid.store_extend (by omega) ?_
  rw [List.length_singleton, hreach]
  omega

theorem optionPtr_agree (h : AgreeTo s.pkt pkt' n) (hpos : 0 < s.appendPtr)
    (hends : s.appendPtr ≤ n) : Scan.optionPtr { s with pkt := pkt' } = s.optionPtr := by
  have hlast : s.pkt (s.appendPtr - 1) = pkt' (s.appendPtr - 1) := h _ (by omega) (by omega)
  show (if pkt' (s.appendPtr - 1) = endTag then s.appendPtr - 1 else s.appendPtr) = s.optionPtr
  rw [← hlast]
  rfl

theorem hasRoom_pkt (pkt' : Packet) (rId : RemoteId) :
    Scan.hasRoom { s with pkt := pkt' } dhcp rId = s.hasRoom dhcp rId := rfl

theorem appendPtr_pkt (pkt' : Packet) : Scan.appendPtr { s with pkt := pkt' } = s.appendPtr := rfl

/-- The last byte in front of the new option is read if there is room. -/
theorem added_agree (h : AgreeTo s.pkt pkt' n)
    (hread : s.hasRoom dhcp c.cfg.rId = true → 0 < s.appendPtr ∧ s.appendPtr ≤ n) :
    (c.added dhcp { s with pkt := pkt' }).2 = (c.added dhcp s).2 ∧
      AgreeTo (c.added dhcp s).1 (c.added dhcp { s with pkt := pkt' }).1 n := by
  unfold Option82Call.added addAgentOption
  rw [@hasRoom_pkt dhcp s pkt']
  by_cases hroom : s.hasRoom dhcp c.cfg.rId = true
  · obtain ⟨hpos, hends⟩ := hread hroom
    rw [if_pos hroom, if_pos hroom, optionPtr_agree h hpos hends]
    refine ⟨?_, writeAgentOption_agree _ _ _ _ _ _ h⟩
    rw [writeAgentOption_stores, writeAgentOption_stores]
  · rw [if_neg hroom, if_neg hroom]
    exact ⟨appendPtr_pkt pkt', h⟩

theorem added_extends (h : AgreeTo s.pkt pkt' n) (hinfo : s.pktInfo = c.pktInfo)
    (hpos : 0 < s.appendPtr) (hwithin : c.OptionsWithin dhcp s n) :
    AgreeTo (c.added dhcp s).1 (c.added dhcp { s with pkt := pkt' }).1
      (max n (c.addedReach dhcp s)) := by
  have hends := hwithin.options
  have hle := @optionPtr_le s
  unfold Option82Call.added addAgentOption Option82Call.addedReach
  rw [@hasRoom_pkt dhcp s pkt']
  by_cases hroom : s.hasRoom dhcp c.cfg.rId = true
  · rw [if_pos hroom, if_pos hroom, if_pos hroom, optionPtr_agree h hpos hends]
    dsimp only
    rw [hinfo]
    exact writeAgentOption_extends h (by omega) fun hshort => hwithin.gap ⟨hroom, hshort⟩
  · rw [if_neg hroom, if_neg hroom, if_neg hroom]
    exact h.mono (by omega)

/-- The lengths are written alike, and the padding. -/
theorem updateLengths_agree (h : AgreeTo pkt pkt' n) (hpos : 0 < n) :
    AgreeTo (updateLengths dhcp pkt sp) (updateLengths dhcp pkt' sp) n := by
  unfold updateLengths
  simp only
  have hpadded : AgreeTo
      (if ((sp - dhcp) % 2 ^ 32).toNat < minbootplen then
        memset pkt sp 0 (minbootplen - ((sp - dhcp) % 2 ^ 32).toNat) else pkt)
      (if ((sp - dhcp) % 2 ^ 32).toNat < minbootplen then
        memset pkt' sp 0 (minbootplen - ((sp - dhcp) % 2 ^ 32).toNat) else pkt') n := by
    split
    · exact h.store _ _
    · exact h
  have hudp := (hpadded.store (dhcp - udphdrLength + uhUlenOff)
    (htonsBytes ((if ((sp - dhcp) % 2 ^ 32).toNat < minbootplen then minbootplen
      else ((sp - dhcp) % 2 ^ 32).toNat) + udphdrLength))).store
        (dhcp - udphdrLength + uhSumOff) [0, 0]
  -- the length of the IP header is read from the first byte
  have hfirst := hudp 0 (Int.le_refl 0) hpos
  unfold ipHl
  rw [hfirst]
  exact (hudp.store ipLenOff _).store ipSumOff [0, 0]

/-- The lengths and the padding: the whole message agrees. -/
theorem updateLengths_extends (h : AgreeTo pkt pkt' n) (hpos : 0 < n) (hdhcp : dhcp ≤ sp)
    (hsp : sp ≤ n) (hfit : sp - dhcp < 2 ^ 32) :
    AgreeTo (updateLengths dhcp pkt sp) (updateLengths dhcp pkt' sp)
      (max n (dhcp + max (sp - dhcp).toNat minbootplen)) := by
  have hlength : ((sp - dhcp) % 2 ^ 32).toNat = (sp - dhcp).toNat := by omega
  unfold updateLengths
  simp only [hlength]
  have hpadded : AgreeTo
      (if (sp - dhcp).toNat < minbootplen then
        memset pkt sp 0 (minbootplen - (sp - dhcp).toNat) else pkt)
      (if (sp - dhcp).toNat < minbootplen then
        memset pkt' sp 0 (minbootplen - (sp - dhcp).toNat) else pkt')
      (max n (dhcp + max (sp - dhcp).toNat minbootplen)) := by
    by_cases hshort : (sp - dhcp).toNat < minbootplen
    · rw [if_pos hshort, if_pos hshort]
      apply h.store_extend (by omega)
      rw [List.length_replicate]
      omega
    · rw [if_neg hshort, if_neg hshort]
      exact h.mono (by omega)
  rw [← max_def_lt]
  have hudp := (hpadded.store (dhcp - udphdrLength + uhUlenOff)
    (htonsBytes (max (sp - dhcp).toNat minbootplen + udphdrLength))).store
      (dhcp - udphdrLength + uhSumOff) [0, 0]
  -- the length of the IP header is read from the first byte
  have hfirst := hudp 0 (Int.le_refl 0) (by omega)
  unfold ipHl
  rw [hfirst]
  exact (hudp.store ipLenOff _).store ipSumOff [0, 0]

theorem finish_twin (h : AgreeTo s.pkt pkt' n) (hpos : 0 < n)
    (hop : s.pkt (dhcp + opOff) = pkt' (dhcp + opOff))
    (hread : s.isDhcp = true → s.pkt (dhcp + opOff) = bootrequest →
      s.hasRoom dhcp c.cfg.rId = true → 0 < s.appendPtr ∧ s.appendPtr ≤ n) :
    (c.finish dhcp { s with pkt := pkt' }).result = (c.finish dhcp s).result ∧
      AgreeTo (c.finish dhcp s).pkt (c.finish dhcp { s with pkt := pkt' }).pkt n := by
  -- the branches of the source: no DHCP message, a reply, a request, anything else
  unfold Option82Call.finish finishOption82
  simp only [← hop]
  by_cases hdhcp : s.isDhcp = true
  · rw [if_neg (not_not_intro hdhcp), if_neg (not_not_intro hdhcp)]
    by_cases hreply : s.pkt (dhcp + opOff) = bootreply
    · rw [if_pos hreply, if_pos hreply]
      split
      · exact ⟨rfl, h⟩
      · exact ⟨rfl, h⟩
    · rw [if_neg hreply, if_neg hreply]
      by_cases hrequest : s.pkt (dhcp + opOff) = bootrequest
      · rw [if_pos hrequest, if_pos hrequest]
        obtain ⟨hptr, hagree⟩ := @added_agree c dhcp n pkt' s h (hread hdhcp hrequest)
        unfold Option82Call.added at hptr hagree
        refine ⟨rfl, ?_⟩
        rw [hptr]
        exact updateLengths_agree hagree hpos
      · rw [if_neg hrequest, if_neg hrequest]
        exact ⟨rfl, updateLengths_agree h hpos⟩
  · rw [if_pos hdhcp, if_pos hdhcp]
    exact ⟨rfl, h⟩

/-- The end of the function for a request with a message type. -/
theorem finish_request (hdhcp : s.isDhcp = true) (hop : s.pkt (dhcp + opOff) = bootrequest) :
    c.finish dhcp s
      = ⟨.valid, updateLengths dhcp (c.added dhcp s).1 (c.added dhcp s).2, s.pktInfo⟩ := by
  have hreply : s.pkt (dhcp + opOff) ≠ bootreply := by
    rw [hop]
    decide
  unfold Option82Call.finish finishOption82 Option82Call.added
  rw [if_neg (not_not_intro hdhcp), if_neg hreply]
  simp only [hop, if_true]

/-- Where a rewritten message ends. -/
theorem added_bounds (happend : dhcp + optionsStart ≤ s.appendPtr) :
    dhcp + optionsStart ≤ (c.added dhcp s).2 ∧ (c.added dhcp s).2 ≤ s.appendPtr + 17 ∧
      (c.added dhcp s).2 ≤ c.addedReach dhcp s := by
  have hle := @optionPtr_le s
  have hrl := remoteIdLength_le c.cfg.rId
  have hreach := optionReach_ge c.host c.ifName c.bootpGw c.cfg.rId c.pktInfo
  unfold Option82Call.added addAgentOption Option82Call.addedReach
  by_cases hroom : s.hasRoom dhcp c.cfg.rId = true
  · rw [if_pos hroom, if_pos hroom, writeAgentOption_stores]
    dsimp only
    omega
  · rw [if_neg hroom, if_neg hroom]
    dsimp only
    omega

/-- A rewritten request is determined as far as it is written, if what was left in it is. -/
theorem finish_extends (h : AgreeTo s.pkt pkt' n) (hinfo : s.pktInfo = c.pktInfo)
    (hdhcp : s.isDhcp = true) (hrequest : s.pkt (dhcp + opOff) = bootrequest)
    (hop : s.pkt (dhcp + opOff) = pkt' (dhcp + opOff)) (hfixed : 0 ≤ dhcp)
    (happend : dhcp + optionsStart ≤ s.appendPtr) (hn : n < 2 ^ 31)
    (hwithin : c.OptionsWithin dhcp s n) :
    AgreeTo (c.finish dhcp s).pkt (c.finish dhcp { s with pkt := pkt' }).pkt
      (max n (c.writtenEnd dhcp s)) := by
  have hends := hwithin.options
  have hpos : 0 < s.appendPtr := by
    unfold optionsStart at happend
    omega
  obtain ⟨hptr, -⟩ := @added_agree c dhcp n pkt' s h fun _ => ⟨hpos, hends⟩
  have hagree := @added_extends c dhcp n pkt' s h hinfo hpos hwithin
  obtain ⟨hlow, hhigh, hreach⟩ := @added_bounds c dhcp s happend
  unfold optionsStart at hlow
  have hwhole := @updateLengths_extends dhcp (c.added dhcp s).2 _ _ _ hagree (by omega) (by omega)
    (by omega) (by omega)
  rw [finish_request hdhcp hrequest, finish_request (s := { s with pkt := pkt' }) hdhcp
    (hop.symm.trans hrequest)]
  dsimp only
  rw [hptr]
  apply hwhole.mono
  unfold Option82Call.writtenEnd Option82Call.newLength
  omega

/-- The IP length that the lengths are updated to. -/
theorem updateLengths_ipLen (hdhcp : 28 ≤ dhcp) (hsp : 0 < sp) :
    slice (updateLengths dhcp pkt sp) ipLenOff 2 = htonsBytes
      (max ((sp - dhcp) % 2 ^ 32).toNat minbootplen + udphdrLength + ipHl pkt * 4) := by
  unfold updateLengths
  simp only
  rw [slice_store_outside _ (Or.inl (by decide)), ← max_def_lt]
  -- the header length is read from the first byte, which is not written
  have hfirst : ∀ m : Packet, m 0 = pkt 0 → ipHl m = ipHl pkt := by
    intro m hm
    unfold ipHl
    rw [hm]
  rw [hfirst]
  · exact slice_store_self _ ipLenOff (htonsBytes _)
  · rw [store_of_lt _ (by unfold udphdrLength uhSumOff; omega),
      store_of_lt _ (by unfold udphdrLength uhUlenOff; omega)]
    split
    · exact store_of_lt _ hsp _
    · rfl

/-- The IP length of a rewritten request. -/
theorem finish_ipLen (hdhcp : s.isDhcp = true) (hrequest : s.pkt (dhcp + opOff) = bootrequest)
    (hge : 28 ≤ dhcp) (happend : dhcp + optionsStart ≤ s.appendPtr) (hfit : s.appendPtr < 2 ^ 31) :
    slice (c.finish dhcp s).pkt ipLenOff 2
      = htonsBytes (c.newLength dhcp s + udphdrLength + ipHl s.pkt * 4) := by
  obtain ⟨hlow, hhigh, -⟩ := @added_bounds c dhcp s happend
  have hptr := @optionPtr_le s
  unfold optionsStart at hlow happend
  have hlength : (((c.added dhcp s).2 - dhcp) % 2 ^ 32).toNat
      = ((c.added dhcp s).2 - dhcp).toNat := by
    omega
  have hhl : ipHl (c.added dhcp s).1 = ipHl s.pkt := by
    unfold ipHl Option82Call.added addAgentOption
    split
    · rw [writeAgentOption_front _ _ (by omega)]
    · rfl
  rw [finish_request hdhcp hrequest]
  dsimp only
  rw [updateLengths_ipLen hge (by omega), hlength, hhl]
  rfl

/-- What the lengths and the padding leave alone. -/
theorem updateLengths_outside {a : ℤ} (ha : dhcp ≤ a) (hge : 28 ≤ dhcp)
    (hout : a < sp ∨ sp ≤ a ∧ dhcp + minbootplen ≤ a) (hdhcp : dhcp ≤ sp)
    (hfit : sp - dhcp < 2 ^ 32) :
    updateLengths dhcp pkt sp a = pkt a := by
  have hlength : ((sp - dhcp) % 2 ^ 32).toNat = (sp - dhcp).toNat := by omega
  unfold updateLengths
  simp only [hlength]
  rw [store_of_ge, store_of_ge, store_of_ge, store_of_ge]
  · split
    · apply store_outside
      rw [List.length_replicate]
      omega
    · rfl
  · simp only [uhUlenOff, udphdrLength, length_htonsBytes]
    omega
  · simp only [uhSumOff, udphdrLength, List.length_cons, List.length_nil]
    omega
  · simp only [ipLenOff, length_htonsBytes]
    omega
  · simp only [ipSumOff, List.length_cons, List.length_nil]
    omega

/-- A cell that the end of the function does not write. -/
theorem finish_unwritten {a : ℤ} (hinfo : s.pktInfo = c.pktInfo) (hdhcp : s.isDhcp = true)
    (hrequest : s.pkt (dhcp + opOff) = bootrequest) (hge : 28 ≤ dhcp)
    (happend : dhcp + optionsStart ≤ s.appendPtr) (hfit : s.appendPtr < 2 ^ 31)
    (ha : dhcp + optionsStart ≤ a) (hout : c.Unwritten dhcp s a) :
    (c.finish dhcp s).pkt a = s.pkt a := by
  obtain ⟨hlow, hhigh, hreach⟩ := @added_bounds c dhcp s happend
  -- the cell is inside the message, or behind the padding as well
  have hends : a < (c.added dhcp s).2 ∨ (c.added dhcp s).2 ≤ a ∧ dhcp + minbootplen ≤ a := by
    rcases hout with hbehind | ⟨hroom, hlt⟩ | ⟨hroom, -, hlt⟩
    · unfold Option82Call.writtenEnd Option82Call.newLength at hbehind
      omega
    · left
      unfold Option82Call.added addAgentOption
      rw [if_neg hroom]
      exact hlt
    · left
      unfold Option82Call.added addAgentOption
      rw [if_pos hroom, writeAgentOption_stores]
      dsimp only
      omega
  unfold optionsStart at hlow ha
  rw [finish_request hdhcp hrequest]
  dsimp only
  rw [updateLengths_outside (by omega) hge hends (by omega) (by omega)]
  unfold Option82Call.added addAgentOption
  by_cases hroom : s.hasRoom dhcp c.cfg.rId = true
  · rw [if_pos hroom, hinfo]
    -- behind the new option, or in the gap that the remote id leaves
    rcases hout with hbehind | ⟨hno, -⟩ | ⟨-, hgap, hlt⟩
    · apply writeAgentOption_above
      unfold Option82Call.writtenEnd Option82Call.addedReach at hbehind
      rw [if_pos hroom] at hbehind
      omega
    · exact absurd hroom hno
    · rw [writeAgentOption_stores]
      dsimp only
      rw [store_of_lt _ (by omega), store_of_ge _ (by omega), store_of_ge]
      rw [length_agentOptionHead]
      omega
  · rw [if_neg hroom]

end finish

/-! ## The function -/

/-- Option 82 processing reads no byte of the packet behind `n`. -/
structure Option82Within (c : Option82Call) (pkt : Packet) (n : ℤ) : Prop where
  fixed : c.cfg.enabled .dhcpRelayOption82 = true → dhcp pkt + optionsStart ≤ n
  loop : Works c pkt → LoopWithin c.cfg c.host c.ifName (dhcp pkt) (optionsMax pkt) n
    (Scan.start pkt c.pktInfo)
  newOption : dhcpOp pkt = bootrequest → ∀ s, c.Ends pkt s → s.isDhcp = true →
    s.hasRoom (dhcp pkt) c.cfg.rId = true → s.appendPtr ≤ n

section process

variable {c : Option82Call} {n : ℤ} {pkt pkt' : Packet} {s : Scan}

theorem Option82Within.mono {n' : ℤ} (hle : n ≤ n') (h : Option82Within c pkt n) :
    Option82Within c pkt n' where
  fixed := fun hon => (h.fixed hon).trans hle
  loop := fun hworks => (h.loop hworks).mono hle
  newOption := fun hop s hends hdhcp hroom => (h.newOption hop s hends hdhcp hroom).trans hle

theorem works_agree (h : AgreeTo pkt pkt' n) (hfixed : dhcp pkt + optionsStart ≤ n) :
    Works c pkt' ↔ Works c pkt := by
  have hpos : 0 ≤ udph pkt := Int.natCast_nonneg _
  have hwhere : dhcp pkt = udph pkt + 8 := rfl
  unfold optionsStart at hfixed
  have hdhcp : dhcp pkt = dhcp pkt' := dhcp_agree h (by omega)
  have hcookie : slice pkt (dhcp pkt + optionsOff) magicLen
      = slice pkt' (dhcp pkt + optionsOff) magicLen :=
    h.slice (by unfold optionsOff; omega) (by unfold optionsOff magicLen; omega)
  constructor
  · intro hworks
    refine ⟨hworks.enabled, ?_⟩
    rw [hcookie, hdhcp]
    exact hworks.cookie
  · intro hworks
    refine ⟨hworks.enabled, ?_⟩
    rw [← hdhcp, ← hcookie]
    exact hworks.cookie

/-- The loops over two packets that agree end alike. -/
theorem ends_twin (h : AgreeTo pkt pkt' n) (hwithin : Option82Within c pkt n)
    (hends : c.Ends pkt s) :
    ∃ s', c.Ends pkt' s' ∧ s.Twin pkt pkt' n s' := by
  have hfixed := hwithin.fixed hends.works.enabled
  have hscan := scanOptions_twin h hfixed (hwithin.loop hends.works)
  rw [hends.scan] at hscan
  generalize hright : scanOptions c.cfg c.host c.ifName pkt' c.pktInfo = right at hscan
  cases hscan with
  | next htwin =>
    have hworks' := (works_agree h hfixed).mpr hends.works
    exact ⟨_, Option82Call.ends_of_scan hworks' hright, htwin⟩

/-- Both packets are processed alike, and what was read stays alike. -/
theorem process_twin (h : AgreeTo pkt pkt' n) (hwithin : Option82Within c pkt n) :
    (c.process pkt').result = (c.process pkt).result ∧
      AgreeTo (c.process pkt).pkt (c.process pkt').pkt n ∧
      ((∀ s, c.Ends pkt s → s.isDhcp = true → dhcpOp pkt = bootreply) →
        Twins pkt pkt' n (c.process pkt).pkt (c.process pkt').pkt) := by
  have hpos : 0 ≤ udph pkt := Int.natCast_nonneg _
  have hwhere : dhcp pkt = udph pkt + 8 := rfl
  by_cases hworks : Works c pkt
  · -- processing works with both packets: the scans run alike, and so does the end
    have hfixed := hwithin.fixed hworks.enabled
    have hworks' := (works_agree h hfixed).mpr hworks
    have hscan := scanOptions_twin h hfixed (hwithin.loop hworks)
    generalize hleft : scanOptions c.cfg c.host c.ifName pkt c.pktInfo = left at hscan
    generalize hright : scanOptions c.cfg c.host c.ifName pkt' c.pktInfo = right at hscan
    cases hscan with
    | ret result htwin =>
      rw [process_of_works hworks, process_of_works hworks', hleft, hright]
      exact ⟨rfl, htwin.twins.agree, fun _ => htwin.twins⟩
    | @next s s' htwin =>
      have hends := Option82Call.ends_of_scan hworks hleft
      have hends' := Option82Call.ends_of_scan hworks' hright
      obtain ⟨hfront, happend, -, -⟩ := scanOptions_behind hleft
      have hop : s.pkt (dhcp pkt + opOff) = dhcpOp pkt := hends.reached.op
      unfold optionsStart at happend hfixed
      have hsame : s.pkt (dhcp pkt + opOff) = s'.pkt (dhcp pkt + opOff) :=
        htwin.twins.agree _ (by unfold opOff; omega) (by unfold opOff; omega)
      rw [hends.process, hends'.process, ← dhcp_agree h (by omega), htwin.rest]
      obtain ⟨hresult, hkept⟩ := @finish_twin c (dhcp pkt) n s'.pkt s htwin.twins.agree (by omega)
        hsame fun hdhcp hrequest hroom => ⟨by omega,
          hwithin.newOption (hop ▸ hrequest) s hends hdhcp hroom⟩
      refine ⟨hresult, hkept, fun hplain => ?_⟩
      -- what is not rewritten is left as the loop leaves it
      have hplain' : ∀ s₁ : Scan, s₁.isDhcp = s.isDhcp →
          s₁.pkt (dhcp pkt + opOff) = dhcpOp pkt → (c.finish (dhcp pkt) s₁).pkt = s₁.pkt := by
        intro s₁ htyped hop₁
        unfold Option82Call.finish finishOption82
        by_cases hdhcp : s₁.isDhcp = true
        · rw [if_neg (not_not_intro hdhcp),
            if_pos (hop₁.trans (hplain s hends (htyped ▸ hdhcp)))]
          split <;> rfl
        · rw [if_pos hdhcp]
      rw [hplain' s rfl hop, hplain' { s with pkt := s'.pkt } rfl (hsame.symm.trans hop)]
      exact htwin.twins
  · -- processing works with neither packet
    have hleft := process_of_not_works hworks
    have hright : (c.process pkt').result = .noop ∧ (c.process pkt').pkt = pkt' := by
      apply process_of_not_works
      intro hworks'
      exact hworks ((works_agree h (hwithin.fixed hworks'.enabled)).mp hworks')
    rw [hleft.1, hright.1, hleft.2, hright.2]
    exact ⟨rfl, h, fun _ => .of_agree h⟩

/-- Two requests that are rewritten alike. -/
theorem rewritten_twin (h : AgreeTo pkt pkt' n) (hmax : n < 2 ^ 31) (hudph : 20 ≤ udph pkt)
    (hwithin : Option82Within c pkt n) (hop : dhcpOp pkt = bootrequest) (hends : c.Ends pkt s)
    (hdhcp : s.isDhcp = true) (hfit : s.appendPtr < 2 ^ 31) :
    (c.OptionsWithin (dhcp pkt) s n →
      AgreeTo (c.process pkt).pkt (c.process pkt').pkt (max n (c.writtenEnd (dhcp pkt) s))) ∧
    ∀ a, n ≤ a → c.Unwritten (dhcp pkt) s a →
      (c.process pkt).pkt a = pkt a ∧ (c.process pkt').pkt a = pkt' a := by
  have hwhere : dhcp pkt = udph pkt + 8 := rfl
  have hfixed := hwithin.fixed hends.works.enabled
  obtain ⟨s', hends', htwin⟩ := ends_twin h hwithin hends
  obtain ⟨-, happend, -, hinfo⟩ := scanOptions_behind hends.scan
  have hrequest : s.pkt (dhcp pkt + opOff) = bootrequest := hends.reached.op.trans hop
  have hfixed' := hfixed
  unfold optionsStart at hfixed'
  have hsame : s.pkt (dhcp pkt + opOff) = s'.pkt (dhcp pkt + opOff) :=
    htwin.twins.agree _ (by unfold opOff; omega) (by unfold opOff; omega)
  rw [hends.process, hends'.process, ← dhcp_agree h (by omega)]
  constructor
  · intro hoptions
    rw [htwin.rest]
    exact finish_extends htwin.twins.agree (hinfo hop) hdhcp hrequest hsame (by omega) happend hmax
      hoptions
  · intro a ha hout
    obtain ⟨hcell, hcell'⟩ := htwin.twins.behind a ha
    rw [finish_unwritten (hinfo hop) hdhcp hrequest (by omega) happend hfit (by omega) hout, hcell,
      htwin.rest]
    refine ⟨rfl, ?_⟩
    -- where the new option goes is the same for both
    have hunwritten : c.Unwritten (dhcp pkt) { s with pkt := s'.pkt } a := by
      unfold Option82Call.Unwritten Option82Call.writtenEnd Option82Call.addedReach
        Option82Call.newLength at hout ⊢
      rw [@hasRoom_pkt (dhcp pkt) s s'.pkt, @appendPtr_pkt s s'.pkt]
      have hread : s.hasRoom (dhcp pkt) c.cfg.rId = true → 0 < s.appendPtr ∧ s.appendPtr ≤ n := by
        intro hroom
        unfold optionsStart at happend
        exact ⟨by omega, hwithin.newOption hop s hends hdhcp hroom⟩
      rw [(@added_agree c (dhcp pkt) n s'.pkt s htwin.twins.agree hread).1]
      by_cases hroom : s.hasRoom (dhcp pkt) c.cfg.rId = true
      · rw [optionPtr_agree htwin.twins.agree (hread hroom).1 (hread hroom).2]
        exact hout
      · rw [if_neg hroom] at hout ⊢
        rcases hout with hbehind | hlast | ⟨hno, -⟩
        · exact Or.inl hbehind
        · exact Or.inr (Or.inl hlast)
        · exact absurd hno hroom
    have hcells := finish_unwritten (s := { s with pkt := s'.pkt }) (hinfo hop) hdhcp
      (hsame.symm.trans hrequest) (show 28 ≤ dhcp pkt by omega) happend hfit (by omega) hunwritten
    exact hcells.trans hcell'

end process

end Udpfwd
end IpApps
