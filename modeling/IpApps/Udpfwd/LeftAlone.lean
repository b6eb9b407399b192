import IpApps.Udpfwd.Option82Insert
import IpApps.Udpfwd.OptionSearch

/-!
# Packets that are left alone

The option loop writes on every pad and reads every length octet again after a move. As long
as no option has been stripped, the write pointer is the parser pointer, and what it writes is
what is there. A packet without a message type is never stripped, and a request that keeps its
option 82 is returned before anything is.
-/

namespace IpApps
namespace Udpfwd

open Memory

/-- Nothing has been stripped: both pointers are at the same place in the packet that came in. -/
structure Scan.Unmoved (pkt : Packet) (s : Scan) : Prop where
  pkt : s.pkt = pkt
  ptr : s.sp = s.optionParserPtr

section unmoved

variable {cfg : FeatureConfig} {host : Host} {ifName : CString} {dhcp max : ℤ}
variable {pkt : Packet} {s s' : Scan}

/-- An option that stays is already there. -/
theorem Scan.Unmoved.keepOption (h : s.Unmoved pkt) : s.keepOption = { s with
    endPad := none
    sp := s.sp + ((pkt (s.optionParserPtr + 1)).toNat + dhcpOptionHeaderLength)
    optionParserPtr := s.optionParserPtr +
      ((pkt (s.optionParserPtr + 1)).toNat + dhcpOptionHeaderLength) } := by
  unfold Scan.keepOption
  simp only [h.ptr, ne_eq, not_true_eq_false, if_false, h.pkt, Nat.cast_add]

/-- The byte at the parser pointer is already there. -/
theorem Scan.Unmoved.store (h : s.Unmoved pkt) :
    store s.pkt s.sp [s.pkt s.optionParserPtr] = pkt := by
  have hself := store_slice_self s.pkt s.sp 1
  rw [slice_succ, slice_zero] at hself
  rw [← h.ptr, hself, h.pkt]

/-- A round that strips nothing: the pointers stay together, or END has been met. -/
theorem Scan.Unmoved.step (h : s.Unmoved pkt)
    (hstep : optionStep cfg host ifName dhcp max s = .next s') (hdhcp : s'.isDhcp = false) :
    s'.pkt = pkt ∧ (s'.sp = s'.optionParserPtr ∨ max ≤ s'.optionParserPtr) := by
  rcases optionStep_cases hstep with rfl | rfl | ⟨endPad, isDhcp, maxMsgSize, rfl, -⟩
    | ⟨pktInfo, good, rfl, -, htrue⟩
  · have hptr := h.ptr
    refine ⟨h.store, Or.inl ?_⟩
    show s.sp + 1 = s.optionParserPtr + 1
    rw [hptr]
  · refine ⟨?_, Or.inr (le_refl max)⟩
    show (if s.sp ≠ s.optionParserPtr then _ else s.pkt) = pkt
    rw [if_neg (not_not_intro h.ptr), h.pkt]
  · have hkept : Scan.Unmoved pkt { s with endPad, isDhcp, maxMsgSize } := ⟨h.pkt, h.ptr⟩
    rw [hkept.keepOption]
    refine ⟨h.pkt, Or.inl ?_⟩
    show s.sp + _ = s.optionParserPtr + _
    rw [h.ptr]
  · exact absurd htrue (by simpa [Scan.skipOption] using hdhcp)

/-- A message type that has been seen stays seen. -/
theorem optionStep_isDhcp (hstep : optionStep cfg host ifName dhcp max s = .next s')
    (h : s.isDhcp = true) : s'.isDhcp = true := by
  rcases optionStep_cases hstep with rfl | rfl | ⟨endPad, isDhcp, maxMsgSize, rfl, hmono⟩
    | ⟨pktInfo, good, rfl, -, -⟩
  · exact h
  · exact h
  · exact hmono h
  · exact h

theorem optionLoop_isDhcp {rounds : ℕ}
    (hloop : optionLoop cfg host ifName dhcp max rounds s = .next s') (h : s.isDhcp = true) :
    s'.isDhcp = true := by
  induction rounds generalizing s with
  | zero => rw [← ScanStep.next.inj hloop, h]
  | succ rounds ih =>
    unfold optionLoop at hloop
    split at hloop
    · split at hloop
      · rename_i s₁ hstep
        exact ih hloop (optionStep_isDhcp hstep h)
      · exact absurd hloop (by simp)
    · rw [← ScanStep.next.inj hloop, h]

/-- Without a message type the loop leaves the packet alone. -/
theorem Scan.Unmoved.loop {rounds : ℕ} (h : s.Unmoved pkt)
    (hloop : optionLoop cfg host ifName dhcp max rounds s = .next s')
    (hdhcp : s'.isDhcp = false) : s'.pkt = pkt := by
  induction rounds generalizing s with
  | zero => rw [← ScanStep.next.inj hloop, h.pkt]
  | succ rounds ih =>
    unfold optionLoop at hloop
    split at hloop
    · split at hloop
      · rename_i s₁ hstep
        have hfirst : s₁.isDhcp = false := by
          cases hs : s₁.isDhcp with
          | false => rfl
          | true => exact absurd (optionLoop_isDhcp hloop hs) (by simp [hdhcp])
        obtain ⟨hpkt, hptr | hend⟩ := h.step hstep hfirst
        · exact ih ⟨hpkt, hptr⟩ hloop
        · rw [optionLoop_end hend] at hloop
          rw [← ScanStep.next.inj hloop, hpkt]
      · exact absurd hloop (by simp)
    · rw [← ScanStep.next.inj hloop, h.pkt]

end unmoved

/-! ## Meeting an option 82 -/

/-- The positions of the items from `p` on that lie in front of `q`, all before `max` and
before END. -/
inductive ItemsBetween (pkt : Packet) (max : ℤ) : ℤ → List ℤ → ℤ → Prop
  | nil {p : ℤ} : ItemsBetween pkt max p [] p
  | cons {p q : ℤ} {ps : List ℤ} (hp : p < max) (hend : pkt p ≠ endTag)
      (rest : ItemsBetween pkt max (p + itemSize pkt p) ps q) : ItemsBetween pkt max p (p :: ps) q

/-- The options of a message hold an option 82 behind a message type, and every maximum message
size in front of it has the length 2. -/
def MeetsAgentOption (pkt : Packet) : Prop :=
  ∃ ps q, ItemsBetween pkt (optionsMax pkt) (dhcp pkt + optionsOff + magicLen) ps q ∧
    q < optionsMax pkt ∧ pkt q = dhcpAgentOptions ∧ (∃ p ∈ ps, pkt p = dhcpMsgtype) ∧
    ∀ p ∈ ps, pkt p = dhcpMaxmsgsize → pkt (p + 1) = 2

section meets

variable {cfg : FeatureConfig} {host : Host} {ifName : CString} {max : ℤ}
variable {pkt : Packet} {s : Scan}

/-- An option 82 behind the message type is kept, and the request goes on as it is. -/
theorem Scan.Unmoved.agent (h : s.Unmoved pkt) (hdhcp : s.isDhcp = true)
    (htag : pkt s.optionParserPtr = dhcpAgentOptions) (hpolicy : cfg.policy = .keep)
    (hgi : giaddr pkt ≠ 0) (hop : dhcpOp pkt = bootrequest) :
    ∃ s', optionStep cfg host ifName (dhcp pkt) max s = .ret .valid s' ∧ s'.pkt = pkt := by
  have hgi : ipAt pkt (dhcp pkt + giaddrOff) ≠ 0 := hgi
  have hop : pkt (dhcp pkt + opOff) = bootrequest := hop
  have hreply : pkt (dhcp pkt + opOff) ≠ bootreply := by
    rw [hop]
    decide
  refine ⟨{ s with endPad := none }, ?_, h.pkt⟩
  unfold optionStep agentOptionStep
  simp only [h.pkt, htag, hdhcp, hpolicy]
  rw [if_neg (by decide), if_neg (by decide), if_neg (by decide), if_neg (by decide),
    if_pos trivial, if_neg (by simp), if_neg hgi, if_neg hreply, if_pos hop]

/-- Any other item is passed over where it is. -/
theorem Scan.Unmoved.item (h : s.Unmoved pkt) (hend : pkt s.optionParserPtr ≠ endTag)
    (hagent : pkt s.optionParserPtr = dhcpAgentOptions → s.isDhcp = false)
    (hsize : dhcpOp pkt = bootrequest → pkt s.optionParserPtr = dhcpMaxmsgsize →
      pkt (s.optionParserPtr + 1) = 2) :
    ∃ s', optionStep cfg host ifName (dhcp pkt) max s = .next s' ∧ s'.Unmoved pkt ∧
      s'.optionParserPtr = s.optionParserPtr + itemSize pkt s.optionParserPtr ∧
      s'.isDhcp = (s.isDhcp || decide (pkt s.optionParserPtr = dhcpMsgtype)) := by
  obtain rfl : s.pkt = pkt := h.pkt
  unfold optionStep
  simp only
  by_cases hpad : s.pkt s.optionParserPtr = pad
  · rw [if_pos hpad]
    refine ⟨_, rfl, ⟨?_, ?_⟩, ?_, ?_⟩
    · exact h.store
    · show s.sp + 1 = s.optionParserPtr + 1
      rw [h.ptr]
    · unfold itemSize
      rw [if_pos hpad]
      rfl
    · rw [hpad]
      exact (Bool.or_false _).symm
  · have hkeep (s₁ : Scan) (h₁ : s₁.Unmoved s.pkt) (hptr : s₁.optionParserPtr = s.optionParserPtr) :
        s₁.keepOption.Unmoved s.pkt ∧ s₁.keepOption.isDhcp = s₁.isDhcp ∧
          s₁.keepOption.optionParserPtr
            = s.optionParserPtr + itemSize s.pkt s.optionParserPtr := by
      rw [h₁.keepOption, hptr]
      refine ⟨⟨h₁.pkt, ?_⟩, rfl, ?_⟩
      · show s₁.sp + _ = s.optionParserPtr + _
        rw [h₁.ptr, hptr]
      · show s.optionParserPtr + _ = _
        unfold itemSize dhcpOptionHeaderLength
        rw [if_neg hpad, Nat.add_comm, Nat.cast_add]
    rw [if_neg hpad]
    by_cases hmsg : s.pkt s.optionParserPtr = dhcpMsgtype
    · obtain ⟨hunmoved, hdhcp, hptr⟩ := hkeep { s with isDhcp := true } ⟨h.pkt, h.ptr⟩ rfl
      rw [if_pos hmsg]
      refine ⟨_, rfl, hunmoved, hptr, ?_⟩
      rw [hdhcp, decide_eq_true hmsg, Bool.or_true]
    · have hstays (s₁ : Scan) (h₁ : s₁.Unmoved s.pkt)
          (hptr₁ : s₁.optionParserPtr = s.optionParserPtr) (hdhcp₁ : s₁.isDhcp = s.isDhcp) :
          s₁.keepOption.Unmoved s.pkt ∧
            s₁.keepOption.optionParserPtr
              = s.optionParserPtr + itemSize s.pkt s.optionParserPtr ∧
            s₁.keepOption.isDhcp
              = (s.isDhcp || decide (s.pkt s.optionParserPtr = dhcpMsgtype)) := by
        obtain ⟨hunmoved, hdhcp, hptr⟩ := hkeep s₁ h₁ hptr₁
        refine ⟨hunmoved, hptr, ?_⟩
        rw [hdhcp, hdhcp₁, decide_eq_false hmsg, Bool.or_false]
      rw [if_neg hmsg]
      by_cases hmax : s.pkt s.optionParserPtr = dhcpMaxmsgsize
      · rw [if_pos hmax]
        by_cases hop : s.pkt (dhcp s.pkt + opOff) = bootrequest
        · rw [if_pos hop, hsize hop hmax, if_pos rfl]
          exact ⟨_, rfl, hstays _ ⟨h.pkt, h.ptr⟩ rfl rfl⟩
        · rw [if_neg hop]
          exact ⟨_, rfl, hstays s h rfl rfl⟩
      · rw [if_neg hmax, if_neg hend]
        by_cases htag : s.pkt s.optionParserPtr = dhcpAgentOptions
        · rw [if_pos htag, if_pos (by simp [hagent htag])]
          exact ⟨_, rfl, hstays s h rfl rfl⟩
        · rw [if_neg htag]
          exact ⟨_, rfl, hstays s h rfl rfl⟩

/-- The loop comes to an option 82 behind the message type, and keeps it. -/
theorem Scan.Unmoved.keeps (h : s.Unmoved pkt) (hpolicy : cfg.policy = .keep)
    (hgi : giaddr pkt ≠ 0) (hop : dhcpOp pkt = bootrequest) {ps : List ℤ} {q : ℤ}
    (hps : ItemsBetween pkt max s.optionParserPtr ps q) (hq : q < max)
    (htag : pkt q = dhcpAgentOptions) (hmsg : s.isDhcp = true ∨ ∃ p ∈ ps, pkt p = dhcpMsgtype)
    (hsize : ∀ p ∈ ps, pkt p = dhcpMaxmsgsize → pkt (p + 1) = 2) {rounds : ℕ}
    (hrounds : (max - s.optionParserPtr).toNat ≤ rounds) :
    ∃ s', optionLoop cfg host ifName (dhcp pkt) max rounds s = .ret .valid s' ∧
      s'.pkt = pkt := by
  induction ps generalizing s rounds with
  | nil =>
    rcases hps with - | -
    have hdhcp : s.isDhcp = true := hmsg.resolve_right (by simp)
    obtain ⟨s', hstep, hpkt⟩ := h.agent hdhcp htag hpolicy hgi hop
    obtain ⟨k, rfl⟩ : ∃ k, rounds = k + 1 := ⟨rounds - 1, by omega⟩
    refine ⟨s', ?_, hpkt⟩
    rw [optionLoop, if_pos hq, hstep]
  | cons p ps ih =>
    rcases hps with - | ⟨hp, hend, hrest⟩
    obtain ⟨k, rfl⟩ : ∃ k, rounds = k + 1 := ⟨rounds - 1, by omega⟩
    rw [optionLoop, if_pos hp]
    by_cases hagent : pkt s.optionParserPtr = dhcpAgentOptions ∧ s.isDhcp = true
    · -- an earlier option 82 is kept
      obtain ⟨s', hstep, hpkt⟩ := h.agent hagent.2 hagent.1 hpolicy hgi hop
      rw [hstep]
      exact ⟨s', rfl, hpkt⟩
    · have hearly : pkt s.optionParserPtr = dhcpAgentOptions → s.isDhcp = false := by
        intro heq
        exact Bool.eq_false_iff.mpr fun hdhcp => hagent ⟨heq, hdhcp⟩
      obtain ⟨s₁, hstep, hunmoved, hptr, hdhcp⟩ :=
        h.item hend hearly fun _ => hsize _ List.mem_cons_self
      have hpos : 1 ≤ itemSize pkt s.optionParserPtr := by
        unfold itemSize
        split <;> omega
      rw [hstep]
      apply ih hunmoved (by rw [hptr]; exact hrest) ?_
        (fun r hr => hsize r (List.mem_cons_of_mem _ hr)) (by omega)
      rw [hdhcp]
      rcases hmsg with hseen | ⟨r, hr, hrmsg⟩
      · left
        rw [hseen, Bool.true_or]
      · rcases List.mem_cons.mp hr with rfl | hr
        · left
          rw [decide_eq_true hrmsg, Bool.or_true]
        · exact Or.inr ⟨r, hr, hrmsg⟩

end meets

/-! ## The function -/

section process

variable (cfg : FeatureConfig) (host : Host) (pkt : Packet) (pktInfo : Option82Options)
variable (ifIndex : UInt32) (ifName : CString) (bootpGw : IpAddress)

theorem start_unmoved : (Scan.start pkt pktInfo).Unmoved pkt := ⟨rfl, rfl⟩

/-- A packet that is not processed is left alone. -/
theorem noop_unchanged
    (h : (processDhcpRelayOption82Message cfg host pkt pktInfo ifIndex ifName bootpGw).result
      = .noop) :
    (processDhcpRelayOption82Message cfg host pkt pktInfo ifIndex ifName bootpGw).pkt = pkt := by
  unfold processDhcpRelayOption82Message at h ⊢
  split at h
  · rename_i hoff
    rw [if_pos hoff]
  rename_i hon
  rw [if_neg hon]
  split at h
  · rename_i hcookie
    rw [if_pos hcookie]
  rename_i hcookie
  rw [if_neg hcookie]
  cases hscan : scanOptions cfg host ifName pkt pktInfo with
  | ret result s =>
    rw [hscan] at h
    exact absurd h (optionLoop_ret hscan)
  | next s =>
    rw [hscan] at h
    simp only [finishOption82] at h ⊢
    split at h
    · rename_i hdhcp
      rw [if_pos hdhcp]
      exact (start_unmoved pkt pktInfo).loop hscan (Bool.eq_false_iff.mpr hdhcp)
    · -- with a message type the packet is valid or dropped
      split at h
      · split at h <;> exact absurd h (by simp)
      · exact absurd h (by simp)

/-- A request that keeps its option 82 is left alone. -/
theorem keep_unchanged (hon : cfg.enabled .dhcpRelayOption82 = true)
    (hcookie : slice pkt (dhcp pkt + optionsOff) magicLen = dhcpCookie)
    (hpolicy : cfg.policy = .keep) (hgi : giaddr pkt ≠ 0) (hop : dhcpOp pkt = bootrequest)
    (hmeets : MeetsAgentOption pkt) :
    (processDhcpRelayOption82Message cfg host pkt pktInfo ifIndex ifName bootpGw).result = .valid ∧
      (processDhcpRelayOption82Message cfg host pkt pktInfo ifIndex ifName bootpGw).pkt
        = pkt := by
  obtain ⟨ps, q, hps, hq, htag, hmsg, hsize⟩ := hmeets
  obtain ⟨s', hscan, hpkt⟩ := (start_unmoved pkt pktInfo).keeps hpolicy hgi hop hps hq htag
    (Or.inr hmsg) hsize (le_refl _)
  have hret : scanOptions cfg host ifName pkt pktInfo = .ret .valid s' := hscan
  unfold processDhcpRelayOption82Message
  rw [if_neg (not_not_intro hon), if_neg (not_not_intro hcookie), hret]
  exact ⟨rfl, hpkt⟩

/-- What is not processed, and a request that keeps its option 82, is left alone. -/
theorem process_left_alone :
    ((processDhcpRelayOption82Message cfg host pkt pktInfo ifIndex ifName bootpGw).result = .noop →
      (processDhcpRelayOption82Message cfg host pkt pktInfo ifIndex ifName bootpGw).pkt = pkt) ∧
    (cfg.enabled .dhcpRelayOption82 = true →
      slice pkt (dhcp pkt + optionsOff) magicLen = dhcpCookie → cfg.policy = .keep →
      giaddr pkt ≠ 0 → dhcpOp pkt = bootrequest → MeetsAgentOption pkt →
      (processDhcpRelayOption82Message cfg host pkt pktInfo ifIndex ifName bootpGw).result
          = .valid ∧
        (processDhcpRelayOption82Message cfg host pkt pktInfo ifIndex ifName bootpGw).pkt = pkt) :=
  ⟨noop_unchanged cfg host pkt pktInfo ifIndex ifName bootpGw,
    keep_unchanged cfg host pkt pktInfo ifIndex ifName bootpGw⟩

end process

/-- A request with a message type and an option 82. -/
def agentRequest : Packet := requestPacket [10, 0, 0, 9] [53, 1, 1, 82, 2, 1, 0, 255]

theorem agentRequest_meets : MeetsAgentOption agentRequest := by
  have hitems : ItemsBetween agentRequest (optionsMax agentRequest)
      (dhcp agentRequest + optionsOff + magicLen) [268] 271 :=
    .cons (by decide +kernel) (by decide +kernel) .nil
  exact ⟨_, _, hitems, by decide +kernel, by decide +kernel, ⟨268, by simp, by decide +kernel⟩,
    by decide +kernel⟩

/-- The request is kept as it is, and not processed without the feature. -/
theorem process_left_alone_agentRequest :
    ((processDhcpRelayOption82Message ⟨0x000a, .keep, .ip⟩ emptyHost agentRequest ⟨0, 0⟩ 3 ['1']
        0).result = .valid ∧
      (processDhcpRelayOption82Message ⟨0x000a, .keep, .ip⟩ emptyHost agentRequest ⟨0, 0⟩ 3 ['1']
        0).pkt = agentRequest) ∧
    (processDhcpRelayOption82Message ⟨0, .keep, .ip⟩ emptyHost agentRequest ⟨0, 0⟩ 3 ['1']
      0).pkt = agentRequest :=
  ⟨(process_left_alone _ _ _ _ _ _ _).2 rfl (by decide +kernel) rfl (by decide +kernel)
      (by decide +kernel) agentRequest_meets,
    (process_left_alone _ _ _ _ _ _ _).1 rfl⟩

end Udpfwd
end IpApps
