import IpApps.Udpfwd.LeftAlone
import IpApps.Udpfwd.OptionOverload
import IpApps.Udpfwd.PacketCounters

/-!
# Where a reply goes

`udpfwd_relay_to_dhcp_client` searches the message type after option 82 processing has rewritten
the options. Up to the first message type nothing can have been stripped, so the search finds
what the server sent.

A message type without a value is taken to have the octet behind it. A unicast reply is preceded
by an ARP request, into which as many octets are copied as the reply's `hlen` says.
-/

namespace IpApps
namespace Udpfwd

open Memory ExceptLoops

/-! ## The options up to the first message type -/

section kept

variable {pkt pkt' : Packet} {optend : ℤ} {tag : UInt8} {p q : ℤ} {ps : List ℤ}

theorem itemSize_pos (pkt : Packet) (p : ℤ) : 1 ≤ itemSize pkt p := by
  unfold itemSize
  split <;> omega

/-- The walk goes forward by a byte an item at least. -/
theorem PassedOver.length_le (h : PassedOver pkt optend tag p ps q) : p + ps.length ≤ q := by
  induction h with
  | done => simp
  | @item p q ps hpass rest ih =>
    have hpos := itemSize_pos pkt p
    rw [List.length_cons]
    push_cast
    omega

theorem PassedOver.length_le_room (h : PassedOver pkt optend tag p ps q) :
    ps.length ≤ (optend - p).toNat := by
  induction h with
  | done => exact Nat.zero_le _
  | @item p q ps hpass rest ih =>
    have hpos := itemSize_pos pkt p
    have hp := hpass.1
    rw [List.length_cons]
    omega

theorem PassedOver.ends (h : PassedOver pkt optend tag p ps q) : ¬Passes pkt optend tag q := by
  induction h with
  | done hnot => exact hnot
  | item hpass rest ih => exact ih

/-- The items lie in front of the end of the walk. -/
theorem PassedOver.bounds (h : PassedOver pkt optend tag p ps q) :
    ∀ r ∈ ps, p ≤ r ∧ r < optend ∧ r + itemSize pkt r ≤ q := by
  induction h with
  | done => simp
  | @item p q ps hpass rest ih =>
    have hpos := itemSize_pos pkt p
    have hle := rest.length_le
    intro r hr
    rcases List.mem_cons.mp hr with rfl | hr
    · exact ⟨Int.le_refl r, hpass.1, by omega⟩
    · obtain ⟨hge, hlt, hend⟩ := ih r hr
      exact ⟨by omega, hlt, hend⟩

/-- The tags and lengths of the items are those of a packet with the same cells. -/
theorem PassedOver.items_congr (h : PassedOver pkt optend tag p ps q)
    (hcells : ∀ a, p ≤ a → a < q → pkt' a = pkt a) :
    ∀ r ∈ ps, pkt' r = pkt r ∧ (pkt r ≠ pad → pkt' (r + 1) = pkt (r + 1)) := by
  intro r hr
  obtain ⟨hge, -, hend⟩ := h.bounds r hr
  have hpos := itemSize_pos pkt r
  refine ⟨hcells r hge (by omega), fun hpad => hcells _ (by omega) ?_⟩
  unfold itemSize at hend
  rw [if_neg hpad] at hend
  omega

/-- The walk reads the tags and lengths of its items, and the tag it ends at. -/
theorem PassedOver.congr (h : PassedOver pkt optend tag p ps q)
    (hitems : ∀ r ∈ ps, pkt' r = pkt r ∧ (pkt r ≠ pad → pkt' (r + 1) = pkt (r + 1)))
    (hend : q < optend → pkt' q = pkt q) : PassedOver pkt' optend tag p ps q := by
  induction h with
  | done hnot =>
    apply PassedOver.done
    rintro ⟨hp, htag, hstop⟩
    rw [hend hp] at htag hstop
    exact hnot ⟨hp, htag, hstop⟩
  | @item p q ps hpass rest ih =>
    obtain ⟨htag, hlen⟩ := hitems p List.mem_cons_self
    have hsize : itemSize pkt' p = itemSize pkt p := by
      unfold itemSize
      rw [htag]
      by_cases hpad : pkt p = pad
      · rw [if_pos hpad, if_pos hpad]
      · rw [if_neg hpad, if_neg hpad, hlen hpad]
    apply PassedOver.item
    · unfold Passes
      rw [htag]
      exact hpass
    · rw [hsize]
      exact ih (fun r hr => hitems r (List.mem_cons_of_mem p hr)) hend

/-- Without overload options there is no overload value. -/
theorem lastOverload_of_none (h : ∀ p ∈ ps, pkt p ≠ optOverload) (ovldOpt : UInt8) :
    lastOverload pkt ovldOpt ps = ovldOpt := by
  have hnone : ps.filter (fun p => pkt p = optOverload) = [] := by
    rw [List.filter_eq_nil_iff]
    intro p hp
    simpa using h p hp
  unfold lastOverload
  rw [hnone]
  rfl

variable {cfg : FeatureConfig} {host : Host} {ifName : CString} {max : ℤ} {s : Scan}

/-- The option loop comes to the end of the walk with nothing stripped. -/
theorem Scan.Unmoved.walk (h : PassedOver pkt optend dhcpMsgtype p ps q) (hmax : optend ≤ max)
    (hop : dhcpOp pkt = bootreply) (hs : s.Unmoved pkt) (hptr : s.optionParserPtr = p)
    (hdhcp : s.isDhcp = false) :
    ∃ s', s'.Unmoved pkt ∧ s'.optionParserPtr = q ∧ s'.isDhcp = false ∧ ∀ rounds,
      optionLoop cfg host ifName (dhcp pkt) max (rounds + ps.length) s
        = optionLoop cfg host ifName (dhcp pkt) max rounds s' := by
  induction h generalizing s with
  | done => exact ⟨s, hs, hptr, hdhcp, fun rounds => rfl⟩
  | @item p q ps hpass rest ih =>
    obtain ⟨hp, hmsg, hend⟩ := hpass
    have hrequest : dhcpOp pkt ≠ bootrequest := by
      rw [hop]
      decide
    obtain ⟨s₁, hstep, hs₁, hptr₁, hdhcp₁⟩ := @Scan.Unmoved.item cfg host ifName max pkt s hs
      (by rwa [hptr]) (fun _ => hdhcp) (fun hreq => absurd hreq hrequest)
    rw [hptr, hdhcp, Bool.false_or, decide_eq_false hmsg] at hdhcp₁
    obtain ⟨s', hs', hptr', hdhcp', hloop⟩ := ih hs₁ (by rw [hptr₁, hptr]) hdhcp₁
    refine ⟨s', hs', hptr', hdhcp', fun rounds => ?_⟩
    rw [List.length_cons, ← Nat.add_assoc, optionLoop, if_pos (by omega), hstep]
    exact hloop rounds

/-- At the end of the options nothing has been stripped. -/
theorem Scan.Unmoved.finish (hs : s.Unmoved pkt) (hdhcp : s.isDhcp = false)
    (hend : max ≤ s.optionParserPtr ∨ pkt s.optionParserPtr = endTag) (dhcp : ℤ) (rounds : ℕ) :
    ∃ s', optionLoop cfg host ifName dhcp max rounds s = .next s' ∧ s'.pkt = pkt ∧
      s'.isDhcp = false := by
  rcases hend with hmax | hstop
  · exact ⟨s, optionLoop_end hmax rounds, hs.pkt, hdhcp⟩
  cases rounds with
  | zero => exact ⟨s, rfl, hs.pkt, hdhcp⟩
  | succ rounds =>
    by_cases hlt : s.optionParserPtr < max
    · have hself := hs.store
      have hread : s.pkt s.optionParserPtr = endTag := by
        rw [hs.pkt]
        exact hstop
      rw [hread] at hself
      rw [optionLoop, if_pos hlt, optionStep_end hread]
      exact ⟨_, optionLoop_end (Int.le_refl max) rounds, hself, hdhcp⟩
    · exact ⟨s, optionLoop_end (by omega) _, hs.pkt, hdhcp⟩

/-- The round for a message type goes on behind it. -/
theorem Scan.Unmoved.messageType (hs : s.Unmoved pkt) (hptr : s.optionParserPtr = q)
    (htag : pkt q = dhcpMsgtype) (dhcp : ℤ) :
    ∃ s', optionStep cfg host ifName dhcp max s = .next s' ∧ s'.pkt = pkt ∧
      s'.sp = q + itemSize pkt q ∧ s'.optionParserPtr = q + itemSize pkt q ∧
      s'.isDhcp = true ∧ Behind (q + itemSize pkt q) pkt s' := by
  have hread : s.pkt s.optionParserPtr = dhcpMsgtype := by rw [hs.pkt, hptr, htag]
  have hpad : pkt q ≠ pad := by
    rw [htag]
    decide
  have htyped : Scan.Unmoved pkt { s with isDhcp := true } := ⟨hs.pkt, hs.ptr⟩
  have hstep : optionStep cfg host ifName dhcp max s
      = .next (Scan.keepOption { s with isDhcp := true }) := by
    unfold optionStep
    simp only [hread]
    rw [if_neg (by decide), if_pos trivial]
  have hsize : (q : ℤ) + ((pkt (q + 1)).toNat + dhcpOptionHeaderLength) = q + itemSize pkt q := by
    unfold itemSize dhcpOptionHeaderLength
    rw [if_neg hpad]
    push_cast
    omega
  have hsp : s.sp + ((pkt (s.optionParserPtr + 1)).toNat + dhcpOptionHeaderLength)
      = q + itemSize pkt q := by
    rw [hs.ptr, hptr, hsize]
  refine ⟨_, hstep, ?_⟩
  rw [htyped.keepOption]
  refine ⟨hs.pkt, hsp, ?_, rfl, fun a _ => by rw [hs.pkt], hsp.ge, fun _ he => nomatch he⟩
  rw [hs.ptr] at hsp
  exact hsp

end kept

/-! ## Behind an empty message type -/

section empty

variable {cfg : FeatureConfig} {host : Host} {ifName : CString} {dhcp max base : ℤ}
variable {pkt : Packet} {s s' : Scan}

/-- The position behind the relay agent options at `p`, of at most as many bytes. -/
def behindAgentOptions (pkt : Packet) (max : ℤ) : ℕ → ℤ → ℤ
  | 0, p => p
  | bytes + 1, p =>
    if p < max ∧ pkt p = dhcpAgentOptions then
      behindAgentOptions pkt max bytes (p + itemSize pkt p)
    else p

/-- A reply is never left alone by a round that returns. -/
theorem optionStep_ret_reply {result : Option82Result} (hop : s.pkt (dhcp + opOff) = bootreply)
    (h : optionStep cfg host ifName dhcp max s = .ret result s') : result = .dropped := by
  have hrequest : s.pkt (dhcp + opOff) ≠ bootrequest := by
    rw [hop]
    decide
  have hnext (s₁ : Scan) : ScanStep.next s₁ ≠ .ret result s' := nofun
  have hdrop {s₁ : Scan} (heq : ScanStep.ret .dropped s₁ = .ret result s') : result = .dropped :=
    (ScanStep.ret.inj heq).1.symm
  unfold optionStep at h
  simp only at h
  split at h
  · exact absurd h (hnext _)
  split at h
  · exact absurd h (hnext _)
  split at h
  · exact absurd h (hnext _)
  split at h
  · exact absurd h (hnext _)
  split at h
  · split at h
    · exact absurd h (hnext _)
    unfold agentOptionStep at h
    dsimp only at h
    split at h
    · exact hdrop h
    split at h
    · exact hdrop h
    · exact absurd h (hnext _)
    · exact absurd h (hnext _)
  · exact absurd h (hnext _)

theorem optionLoop_ret_reply {rounds : ℕ} {result : Option82Result} (hs : Behind base pkt s)
    (hbase : dhcp + opOff < base) (hop : pkt (dhcp + opOff) = bootreply)
    (h : optionLoop cfg host ifName dhcp max rounds s = .ret result s') : result = .dropped := by
  induction rounds generalizing s with
  | zero => cases h
  | succ rounds ih =>
    unfold optionLoop at h
    split at h
    · split at h
      · rename_i s₁ hstep
        exact ih (hs.step hbase hstep).1 h
      · rename_i hstep
        cases h
        exact optionStep_ret_reply ((hs.front _ hbase).trans hop) hstep
    · cases h

/-- The round for an option of a reply that is no relay agent option. -/
theorem optionStep_other_reply (hop : s.pkt (dhcp + opOff) = bootreply)
    (hpad : s.pkt s.optionParserPtr ≠ pad) (hend : s.pkt s.optionParserPtr ≠ endTag)
    (hagent : s.pkt s.optionParserPtr ≠ dhcpAgentOptions) :
    ∃ isDhcp, optionStep cfg host ifName dhcp max s
      = .next (Scan.keepOption { s with isDhcp := isDhcp }) := by
  have hrequest : s.pkt (dhcp + opOff) ≠ bootrequest := by
    rw [hop]
    decide
  unfold optionStep
  simp only [if_neg hpad, if_neg hend, if_neg hagent, if_neg hrequest]
  split
  · exact ⟨true, rfl⟩
  · split <;> exact ⟨s.isDhcp, rfl⟩

/-- The round for a relay agent option behind the message type of a reply, unless it drops the
reply. -/
theorem optionStep_agent_skipped (hop : s.pkt (dhcp + opOff) = bootreply)
    (hagent : s.pkt s.optionParserPtr = dhcpAgentOptions) (hdhcp : s.isDhcp = true)
    (h : optionStep cfg host ifName dhcp max s = .next s') :
    s'.pkt = s.pkt ∧ s'.sp = s.sp ∧ s'.isDhcp = true ∧
      s'.optionParserPtr = s.optionParserPtr + itemSize s.pkt s.optionParserPtr := by
  have hsize : (s.optionParserPtr : ℤ) + (s.pkt (s.optionParserPtr + 1)).toNat
      + dhcpOptionHeaderLength = s.optionParserPtr + itemSize s.pkt s.optionParserPtr := by
    unfold itemSize dhcpOptionHeaderLength
    rw [hagent, if_neg (by decide)]
    push_cast
    omega
  unfold optionStep at h
  simp only [hagent] at h
  rw [if_neg (by decide), if_neg (by decide), if_neg (by decide), if_neg (by decide),
    if_pos trivial, if_neg (by simp [hdhcp])] at h
  unfold agentOptionStep at h
  simp only at h
  split at h
  · cases h
  split at h
  · cases h
  · cases h
    exact ⟨rfl, rfl, hdhcp, hsize⟩
  · cases h
    exact ⟨rfl, rfl, hdhcp, hsize⟩

theorem store_at_start (m : Packet) (a : ℤ) (b : UInt8) : store m a [b] a = b := by
  have hcell := @store_inside _ m a [b] 0 Nat.one_pos
  rw [Nat.cast_zero, Int.add_zero] at hcell
  exact Option.some.inj hcell

/-- An option that stays begins at the write pointer. -/
theorem keepOption_at :
    s.keepOption.pkt s.sp = s.pkt s.optionParserPtr ∧ s.sp + 2 ≤ s.keepOption.sp := by
  unfold Scan.keepOption dhcpOptionHeaderLength
  constructor
  · dsimp only
    by_cases hsame : s.sp = s.optionParserPtr
    · rw [if_neg (not_not_intro hsame), hsame]
    · rw [if_pos hsame, memmove]
      have hcell := @store_inside _ s.pkt s.sp
        (slice s.pkt s.optionParserPtr ((s.pkt (s.optionParserPtr + 1)).toNat + 2)) 0
        (by rw [length_slice]; omega)
      rw [getElem?_slice _ (by omega), Nat.cast_zero, Int.add_zero, Int.add_zero] at hcell
      exact Option.some.inj hcell
  · dsimp only
    push_cast
    omega

/-- The loop writes nothing in front of the write pointer. -/
theorem optionLoop_front {rounds : ℕ} {a : ℤ} (ha : a < s.sp)
    (h : optionLoop cfg host ifName dhcp max rounds s = .next s') : s'.pkt a = s.pkt a := by
  induction rounds generalizing s with
  | zero =>
    cases h
    rfl
  | succ rounds ih =>
    unfold optionLoop at h
    split at h
    · split at h
      · rename_i s₁ hstep
        obtain ⟨hcell, hlt⟩ : s₁.pkt a = s.pkt a ∧ a < s₁.sp := by
          rcases optionStep_cases hstep with rfl | rfl | ⟨endPad, isDhcp, maxMsgSize, rfl, -⟩
            | ⟨pktInfo, good, rfl, -, -⟩
          · exact ⟨store_of_lt _ ha _, Int.lt_trans ha (Int.lt_succ _)⟩
          · refine ⟨?_, Int.lt_trans ha (Int.lt_succ _)⟩
            dsimp only
            split
            · exact store_of_lt _ ha _
            · rfl
          · have hkept := @keepOption_at { s with endPad, isDhcp, maxMsgSize }
            exact ⟨keepOption_front ha, Int.lt_of_lt_of_le ha (by
              have hmoved := hkept.2
              dsimp only at hmoved
              omega)⟩
          · exact ⟨rfl, ha⟩
        rw [ih hlt h, hcell]
      · cases h
    · cases h
      rfl

/-- What comes to stand at `base` when the items from `p` on are moved there: the first one that is
no relay agent option. -/
theorem optionLoop_movedUp {rounds bytes : ℕ} {p : ℤ} (hop : pkt (dhcp + opOff) = bootreply)
    (hpkt : s.pkt = pkt) (hsp : s.sp = base)
    (hptr : s.optionParserPtr = p) (hle : base ≤ p) (hdhcp : s.isDhcp = true)
    (hrounds : (max - p).toNat ≤ rounds) (hbytes : (max - p).toNat ≤ bytes)
    (h : optionLoop cfg host ifName dhcp max rounds s = .next s') :
    s'.pkt base = if behindAgentOptions pkt max bytes p < max then
      pkt (behindAgentOptions pkt max bytes p) else pkt base := by
  induction rounds generalizing s p bytes with
  | zero =>
    cases h
    have hend : behindAgentOptions pkt max bytes p = p := by
      cases bytes with
      | zero => rfl
      | succ bytes => exact if_neg fun hlt => absurd hlt.1 (by omega)
    rw [hend, if_neg (by omega), hpkt]
  | succ rounds ih =>
    by_cases hlt : p < max
    · obtain ⟨bytes, rfl⟩ : ∃ k, bytes = k + 1 := Nat.exists_eq_succ_of_ne_zero (by omega)
      rw [optionLoop, hptr, if_pos hlt] at h
      have hopS : s.pkt (dhcp + opOff) = bootreply := by rw [hpkt, hop]
      have hpos := itemSize_pos pkt p
      cases hstep : optionStep cfg host ifName dhcp max s with
      | ret result s₁ =>
        rw [hstep] at h
        cases h
      | next s₁ =>
        rw [hstep] at h
        dsimp only at h
        by_cases hagent : pkt p = dhcpAgentOptions
        · have htag : s.pkt s.optionParserPtr = dhcpAgentOptions := by rw [hpkt, hptr, hagent]
          obtain ⟨hpkt₁, hsp₁, hdhcp₁, hptr₁⟩ := optionStep_agent_skipped hopS htag hdhcp hstep
          have hnext : behindAgentOptions pkt max (bytes + 1) p
              = behindAgentOptions pkt max bytes (p + itemSize pkt p) := if_pos ⟨hlt, hagent⟩
          rw [hnext]
          exact ih (hpkt₁.trans hpkt) (hsp₁.trans hsp) (by rw [hptr₁, hpkt, hptr]) (by omega)
            hdhcp₁ (by omega) (by omega) h
        · have hstop : behindAgentOptions pkt max (bytes + 1) p = p :=
            if_neg fun hboth => hagent hboth.2
          rw [hstop, if_pos hlt]
          -- the item is written at the base, and nothing in front of it any more
          obtain ⟨hcell, hbehind⟩ : s₁.pkt base = pkt p ∧ base + 1 ≤ s₁.sp := by
            by_cases hpad : pkt p = pad
            · rw [optionStep_pad (by rw [hpkt, hptr, hpad])] at hstep
              cases hstep
              refine ⟨?_, by
                show base + 1 ≤ s.sp + 1
                omega⟩
              show store s.pkt s.sp [pad] base = _
              rw [hsp, store_at_start, hpad]
            by_cases hend : pkt p = endTag
            · rw [optionStep_end (by rw [hpkt, hptr, hend])] at hstep
              cases hstep
              refine ⟨?_, by
                show base + 1 ≤ s.sp + 1
                omega⟩
              show store s.pkt s.sp [endTag] base = _
              rw [hsp, store_at_start, hend]
            obtain ⟨isDhcp, hkeep⟩ := @optionStep_other_reply cfg host ifName dhcp max s hopS
              (by rwa [hpkt, hptr]) (by rwa [hpkt, hptr]) (by rwa [hpkt, hptr])
            rw [hkeep] at hstep
            cases hstep
            obtain ⟨hcell, hmoved⟩ := keepOption_at (s := { s with isDhcp := isDhcp })
            have hread : s.pkt s.optionParserPtr = pkt p := by rw [hpkt, hptr]
            change s.sp + 2 ≤ _ at hmoved
            refine ⟨?_, by omega⟩
            rw [← hsp]
            exact hcell.trans hread
          rw [optionLoop_front (by omega) h, hcell]
    · rw [optionLoop_end (by omega)] at h
      cases h
      have hend : behindAgentOptions pkt max bytes p = p := by
        cases bytes with
        | zero => rfl
        | succ bytes => exact if_neg fun hboth => hlt hboth.1
      rw [hend, if_neg hlt, hpkt]

end empty

section process

variable {cfg : FeatureConfig} {host : Host} {ifIndex : UInt32} {ifName : CString}
variable {bootpGw : IpAddress} {pktInfo : Option82Options} {pkt : Packet} {s : Scan} {rounds : ℕ}

/-- What lies in front of the write pointer at some round of the loop stays in the reply. -/
theorem process_reply_front {base : ℤ} (hop : dhcpOp pkt = bootreply)
    (hbase : dhcp pkt + opOff < base) (hs : Behind base pkt s)
    (hscan : scanOptions cfg host ifName pkt pktInfo
      = optionLoop cfg host ifName (dhcp pkt) (optionsMax pkt) rounds s) :
    ∀ a < base, (processDhcpRelayOption82Message cfg host pkt pktInfo ifIndex ifName
      bootpGw).pkt a = pkt a := by
  intro a ha
  unfold processDhcpRelayOption82Message
  split
  · rfl
  split
  · rfl
  rw [hscan]
  cases hloop : optionLoop cfg host ifName (dhcp pkt) (optionsMax pkt) rounds s with
  | ret result s' => exact hs.loop_ret hbase hloop a ha
  | next s' =>
    have hfront := (hs.loop hbase hloop).1.front
    have hreply : s'.pkt (dhcp pkt + opOff) = bootreply := by
      rw [hfront _ hbase]
      exact hop
    simp only [finishOption82, hreply, if_true]
    split
    · exact hfront a ha
    · split <;> exact hfront a ha

/-- A loop that has met no message type leaves the reply as it is. -/
theorem process_reply_unchanged {s' : Scan}
    (hscan : scanOptions cfg host ifName pkt pktInfo = .next s') (hpkt : s'.pkt = pkt)
    (hdhcp : s'.isDhcp = false) :
    (processDhcpRelayOption82Message cfg host pkt pktInfo ifIndex ifName bootpGw).pkt = pkt := by
  unfold processDhcpRelayOption82Message
  split
  · rfl
  split
  · rfl
  rw [hscan]
  simp only [finishOption82]
  rw [if_pos (by simp [hdhcp])]
  exact hpkt

theorem le_optionsMax (pkt : Packet) : dhcp pkt + dhcpPktlen pkt ≤ optionsMax pkt := by
  have hlt := ntohs_lt pkt (udph pkt + uhUlenOff)
  have hlen : dhcpPktlen pkt < 2 ^ 32 := by
    unfold dhcpPktlen
    omega
  unfold optionsMax
  omega

/-- The scan of a reply comes to the end of the walk, with rounds left for what stands there. -/
theorem scanOptions_walk {ps : List ℤ} {q : ℤ} (cfg : FeatureConfig) (host : Host)
    (ifName : CString) (pktInfo : Option82Options) (hop : dhcpOp pkt = bootreply)
    (hwalk : PassedOver pkt (dhcp pkt + dhcpPktlen pkt) dhcpMsgtype
      (dhcp pkt + optionsOff + magicLen) ps q) :
    ∃ s rounds, s.Unmoved pkt ∧ s.optionParserPtr = q ∧ s.isDhcp = false ∧
      (optionsMax pkt - q).toNat ≤ rounds ∧
      scanOptions cfg host ifName pkt pktInfo
        = optionLoop cfg host ifName (dhcp pkt) (optionsMax pkt) rounds s := by
  have hmax := le_optionsMax pkt
  have hle := hwalk.length_le
  have hroom := hwalk.length_le_room
  have hptr : (Scan.start pkt pktInfo).optionParserPtr = dhcp pkt + optionsOff + magicLen := rfl
  obtain ⟨s, hs, hend, hdhcp, hloop⟩ := @Scan.Unmoved.walk pkt _ _ _ _ cfg host ifName
    (optionsMax pkt) (Scan.start pkt pktInfo) hwalk hmax hop (start_unmoved pkt pktInfo) rfl rfl
  obtain ⟨rounds, hrounds⟩ : ∃ rounds, (optionsMax pkt
      - (Scan.start pkt pktInfo).optionParserPtr).toNat = rounds + ps.length :=
    ⟨(optionsMax pkt - (dhcp pkt + optionsOff + magicLen)).toNat - ps.length, by rw [hptr]; omega⟩
  refine ⟨s, rounds, hs, hend, hdhcp, ?_, ?_⟩
  · rw [hptr] at hrounds
    omega
  · unfold scanOptions
    simp only
    rw [hrounds, hloop]

/-- The first message type of a reply is found where it was, in the message it was found in. -/
theorem process_reply_walk {ps : List ℤ} {q : ℤ} (hop : dhcpOp pkt = bootreply)
    (hwalk : PassedOver pkt (dhcp pkt + dhcpPktlen pkt) dhcpMsgtype
      (dhcp pkt + optionsOff + magicLen) ps q) :
    (∀ a < dhcp pkt + optionsStart, (processDhcpRelayOption82Message cfg host pkt pktInfo ifIndex
        ifName bootpGw).pkt a = pkt a) ∧
      (∀ a < q, (processDhcpRelayOption82Message cfg host pkt pktInfo ifIndex ifName
        bootpGw).pkt a = pkt a) ∧
      (q < dhcp pkt + dhcpPktlen pkt → (processDhcpRelayOption82Message cfg host pkt pktInfo ifIndex
        ifName bootpGw).pkt q = pkt q) ∧
      (q < dhcp pkt + dhcpPktlen pkt → pkt q = dhcpMsgtype → ∀ a < q + itemSize pkt q,
        (processDhcpRelayOption82Message cfg host pkt pktInfo ifIndex ifName bootpGw).pkt a
          = pkt a) ∧
      (ps ≠ [] → ¬(q < dhcp pkt + dhcpPktlen pkt ∧ pkt q = dhcpMsgtype) → ∀ a,
        (processDhcpRelayOption82Message cfg host pkt pktInfo ifIndex ifName bootpGw).pkt a
          = pkt a) := by
  have hstart : dhcp pkt + optionsOff + magicLen = dhcp pkt + optionsStart := by
    unfold optionsOff magicLen optionsStart
    omega
  have hopOff : dhcp pkt + opOff < dhcp pkt + optionsStart := by
    unfold opOff optionsStart
    omega
  have hfront := @process_reply_front cfg host ifIndex ifName bootpGw pktInfo pkt _ _ _ hop hopOff
    (start_behind pkt pktInfo) rfl
  have hle := hwalk.length_le
  have hmax := le_optionsMax pkt
  obtain ⟨s, rounds, hs, hptr, hdhcp, hrounds, hscan⟩ :=
    scanOptions_walk cfg host ifName pktInfo hop hwalk
  by_cases hfound : q < dhcp pkt + dhcpPktlen pkt ∧ pkt q = dhcpMsgtype
  · -- the scan comes to the message type; it writes no more in front of the next option
    obtain ⟨hq, htag⟩ := hfound
    obtain ⟨s₁, hstep, -, -, -, -, hbehind⟩ := @Scan.Unmoved.messageType pkt q cfg host ifName
      (optionsMax pkt) s hs hptr htag (dhcp pkt)
    obtain ⟨k, rfl⟩ : ∃ k, rounds = k + 1 := Nat.exists_eq_succ_of_ne_zero (by omega)
    have hlt : s.optionParserPtr < optionsMax pkt := by
      rw [hptr]
      omega
    rw [optionLoop, if_pos hlt, hstep] at hscan
    have hpos := itemSize_pos pkt q
    have hbase : dhcp pkt + opOff < q + itemSize pkt q := by omega
    have hkept := @process_reply_front cfg host ifIndex ifName bootpGw pktInfo pkt _ _ _ hop
      hbase hbehind hscan
    exact ⟨hfront, fun a ha => hkept a (by omega), fun _ => hkept q (by omega), fun _ _ => hkept,
      fun _ hnot => absurd ⟨hq, htag⟩ hnot⟩
  by_cases hlen : 0 ≤ dhcpPktlen pkt
  · -- the scan ends at `q` without a message type, and the message stays as it is
    have hend : optionsMax pkt ≤ s.optionParserPtr ∨ pkt s.optionParserPtr = endTag := by
      by_contra hnot
      rw [hptr] at hnot
      have hlt : q < dhcp pkt + dhcpPktlen pkt := by
        unfold optionsMax at hnot
        omega
      exact hwalk.ends ⟨hlt, fun htag => hfound ⟨hlt, htag⟩, fun hstop => hnot (Or.inr hstop)⟩
    obtain ⟨s', hnext, hpkt, hdhcp'⟩ := @Scan.Unmoved.finish pkt cfg host ifName (optionsMax pkt) s
      hs hdhcp hend (dhcp pkt) rounds
    rw [hnext] at hscan
    have hsame := @process_reply_unchanged cfg host ifIndex ifName bootpGw pktInfo pkt s' hscan hpkt
      hdhcp'
    exact ⟨hfront, fun a _ => by rw [hsame], fun _ => by rw [hsame], fun _ _ a _ => by rw [hsame],
      fun _ _ a => by rw [hsame]⟩
  · -- the message ends in front of its options
    obtain ⟨hempty, hnil⟩ : q = dhcp pkt + optionsStart ∧ ps = [] := by
      cases hwalk with
      | done => exact ⟨hstart, rfl⟩
      | item hpass rest =>
        have hp := hpass.1
        unfold optionsStart at hstart
        omega
    unfold optionsStart at hempty
    refine ⟨hfront, fun a ha => hfront a ?_, fun hq => ?_, fun hq => ?_,
      fun hitems => absurd hnil hitems⟩
    · unfold optionsStart
      omega
    · omega
    · omega

/-- The octet behind the header of a message type at `q`, in the reply that option 82 processing
leaves. The options behind an empty message type are moved over the relay agent options that follow
it. -/
def typeOctet (cfg : FeatureConfig) (pkt : Packet) (q : ℤ) : UInt8 :=
  let next := behindAgentOptions pkt (optionsMax pkt) (optionsMax pkt - (q + 2)).toNat (q + 2)
  if dhcp pkt + optionsStart ≤ q ∧ pkt (q + 1) = 0 ∧ cfg.enabled .dhcpRelayOption82 = true ∧
      slice pkt (dhcp pkt + optionsOff) magicLen = dhcpCookie ∧ next < optionsMax pkt then pkt next
  else pkt (q + 2)

theorem behindAgentOptions_congr {pkt' : Packet} {base : ℤ} (max : ℤ)
    (hcell : ∀ a ≥ base, pkt' a = pkt a) (bytes : ℕ) {p : ℤ} (hp : base ≤ p) :
    behindAgentOptions pkt' max bytes p = behindAgentOptions pkt max bytes p ∧
      base ≤ behindAgentOptions pkt max bytes p := by
  induction bytes generalizing p with
  | zero => exact ⟨rfl, hp⟩
  | succ bytes ih =>
    have hpos := itemSize_pos pkt p
    have hsize : itemSize pkt' p = itemSize pkt p := by
      unfold itemSize
      rw [hcell p hp, hcell (p + 1) (by omega)]
    unfold behindAgentOptions
    rw [hcell p hp, hsize]
    split
    · exact ih (by omega)
    · exact ⟨rfl, hp⟩

/-- The octet is the same in a packet with the same header and options. -/
theorem typeOctet_congr {pkt' : Packet} {q : ℤ} (hdhcp : dhcp pkt' = dhcp pkt)
    (hlen : dhcpPktlen pkt' = dhcpPktlen pkt) (hcell : ∀ a : ℤ, 9 ≤ a → pkt' a = pkt a)
    (hstart : 9 ≤ dhcp pkt + optionsOff) (hq : 9 ≤ q) :
    typeOctet cfg pkt' q = typeOctet cfg pkt q := by
  have hmax : optionsMax pkt' = optionsMax pkt := by
    unfold optionsMax
    rw [hdhcp, hlen]
  have hcookie : slice pkt' (dhcp pkt + optionsOff) magicLen
      = slice pkt (dhcp pkt + optionsOff) magicLen :=
    slice_congr pkt' pkt fun i _ => hcell _ (by omega)
  obtain ⟨hnext, hge⟩ := behindAgentOptions_congr (optionsMax pkt) hcell
    (optionsMax pkt - (q + 2)).toNat (p := q + 2) (by omega)
  unfold typeOctet
  dsimp only
  rw [hmax, hdhcp, hcookie, hnext, hcell _ hge, hcell (q + 1) (by omega), hcell (q + 2) (by omega)]

/-- What is read for the first message type of a reply that is not dropped. -/
theorem process_reply_octet {ps : List ℤ} {q : ℤ} (hop : dhcpOp pkt = bootreply)
    (hwalk : PassedOver pkt (dhcp pkt + dhcpPktlen pkt) dhcpMsgtype
      (dhcp pkt + optionsOff + magicLen) ps q)
    (hq : q < dhcp pkt + dhcpPktlen pkt) (htag : pkt q = dhcpMsgtype)
    (hrelayed : (processDhcpRelayOption82Message cfg host pkt pktInfo ifIndex ifName
      bootpGw).result ≠ .dropped) :
    (processDhcpRelayOption82Message cfg host pkt pktInfo ifIndex ifName bootpGw).pkt (q + 2)
      = typeOctet cfg pkt q := by
  have hstart : dhcp pkt + optionsStart ≤ q := by
    have hle := hwalk.length_le
    unfold optionsOff magicLen at hle
    unfold optionsStart
    omega
  have hpad : pkt q ≠ pad := by
    rw [htag]
    decide
  have hsize : (itemSize pkt q : ℤ) = 2 + (pkt (q + 1)).toNat := by
    unfold itemSize
    rw [if_neg hpad]
    push_cast
    rfl
  by_cases hempty : pkt (q + 1) = 0
  · rw [hempty] at hsize
    change (itemSize pkt q : ℤ) = 2 at hsize
    by_cases henabled : cfg.enabled .dhcpRelayOption82 = true
    · by_cases hcookie : slice pkt (dhcp pkt + optionsOff) magicLen = dhcpCookie
      · obtain ⟨s, rounds, hs, hptr, hdhcp, hrounds, hscan⟩ :=
          scanOptions_walk cfg host ifName pktInfo hop hwalk
        have hmax := le_optionsMax pkt
        obtain ⟨s₁, hstep, hpkt₁, hsp₁, hptr₁, hdhcp₁, hbehind⟩ := @Scan.Unmoved.messageType pkt q
          cfg host ifName (optionsMax pkt) s hs hptr htag (dhcp pkt)
        obtain ⟨k, rfl⟩ : ∃ k, rounds = k + 1 := Nat.exists_eq_succ_of_ne_zero (by omega)
        rw [optionLoop, if_pos (by omega), hstep] at hscan
        rw [hsize] at hsp₁ hptr₁ hbehind
        have hbase : dhcp pkt + opOff < q + 2 := by
          unfold opOff optionsStart at *
          omega
        unfold processDhcpRelayOption82Message at hrelayed ⊢
        rw [if_neg (not_not_intro henabled), if_neg (not_not_intro hcookie), hscan] at hrelayed ⊢
        dsimp only at hrelayed ⊢
        cases hloop : optionLoop cfg host ifName (dhcp pkt) (optionsMax pkt) k s₁ with
        | ret result s₂ =>
          rw [hloop] at hrelayed
          exact absurd (optionLoop_ret_reply hbehind hbase hop hloop) hrelayed
        | next s₂ =>
          -- the agent options behind the empty type go, and the next octet takes their place
          have hmoved := optionLoop_movedUp hop hpkt₁ hsp₁ hptr₁ (Int.le_refl _) hdhcp₁ (by omega)
            (Nat.le_refl (optionsMax pkt - (q + 2)).toNat) hloop
          have hreply : s₂.pkt (dhcp pkt + opOff) = bootreply :=
            ((hbehind.loop hbase hloop).1.front _ hbase).trans hop
          -- the end of a reply adds nothing to its options
          have hfinish : (finishOption82 cfg host ifIndex ifName bootpGw (dhcp pkt) s₂).pkt
              = s₂.pkt := by
            unfold finishOption82
            rw [if_pos hreply]
            split
            · rfl
            · split <;> rfl
          show (finishOption82 cfg host ifIndex ifName bootpGw (dhcp pkt) s₂).pkt (q + 2) = _
          rw [hfinish, hmoved]
          unfold typeOctet
          dsimp only
          by_cases hnext : behindAgentOptions pkt (optionsMax pkt)
              (optionsMax pkt - (q + 2)).toNat (q + 2) < optionsMax pkt
          · rw [if_pos hnext, if_pos ⟨hstart, hempty, henabled, hcookie, hnext⟩]
          · rw [if_neg hnext, if_neg fun hall => hnext hall.2.2.2.2]
      · unfold processDhcpRelayOption82Message typeOctet
        rw [if_neg (not_not_intro henabled), if_pos hcookie]
        exact (if_neg fun hall => hcookie hall.2.2.2.1).symm
    · unfold processDhcpRelayOption82Message typeOctet
      rw [if_pos henabled]
      exact (if_neg fun hall => henabled hall.2.2.1).symm
  · -- the value of the message type stays where it is
    have hlen : 1 ≤ (pkt (q + 1)).toNat := by
      have hne : (pkt (q + 1)).toNat ≠ 0 := fun hzero => hempty (UInt8.toNat_inj.mp hzero)
      omega
    obtain ⟨-, -, -, htype, -⟩ := @process_reply_walk cfg host ifIndex ifName bootpGw pktInfo pkt
      ps q hop hwalk
    rw [htype hq htag (q + 2) (by omega)]
    exact (if_neg fun hall => hempty hall.2.1).symm

end process

/-! ## The way to the client -/

/-- The address a reply is sent to. -/
def Relay.ReplyDest.address : Relay.ReplyDest → Option IpAddress
  | .broadcast => some ipAddressBcast
  | .unicast sinAddr => some sinAddr
  | .nowhere => none

/-- A datagram was sent to the DHCP client port of the address, if there is one, on the
interface, and no other one. -/
def SendsTo (ifIndex : UInt32) (dest : Option IpAddress) (r r' : Relay) : Prop :=
  ∃ ds, r'.sent = r.sent ++ ds ∧
    ds.map (fun d => (d.sinAddr, d.sinPort, d.pktInfo.ipiIfindex))
      = dest.toList.map fun ip => (ip, dhcpcPort, ifIndex)

/-- The hardware address of a unicast reply was copied to an ARP request. -/
def CopiesHardware (hlen : ℕ) (dest : Relay.ReplyDest) (r r' : Relay) : Prop :=
  ∀ ip, dest = .unicast ip → ∃ req, r'.arpReqs = r.arpReqs ++ [req] ∧ req.haData.length = hlen

section client

variable {host : Host} {p : NodePtr} {r : Relay} {n : UdpfwdInterfaceNode} {ifIndex : UInt32}
variable {ifName : CString} {rounds : ℕ}

theorem sendReply_sends (sinAddr : IpAddress) (hp : r.state.nodes p = some n) :
    ∃ r', Relay.sendReply host ifIndex p sinAddr r = .ok r' ∧
      SendsTo ifIndex (some sinAddr) r r' ∧ r'.arpReqs = r.arpReqs := by
  unfold Relay.sendReply
  simp only [Relay.sendPktThroughSocket]
  rw [State.count_eq _ hp]
  exact ⟨_, rfl, ⟨_, rfl, rfl⟩, rfl⟩

/-- The part after option 82, once the search for the message type has ended. -/
theorem relayToClient_sends {dhcp : ℤ} {option : Option ℤ} (hp : r.state.nodes p = some n)
    (hpick : dhcpPickupOpt rounds r.pkt dhcp (dhcpPktlen r.pkt) dhcpMsgtype = some option) :
    ((∀ ip, Relay.replyDest r.pkt dhcp option = .unicast ip →
        (r.pkt (dhcp + hlenOff)).toNat ≤ arpReqRoom) → ∃ r',
      Relay.relayToClient rounds host ifIndex ifName p dhcp r = .ok r' ∧
        SendsTo ifIndex (Relay.replyDest r.pkt dhcp option).address r r' ∧
        CopiesHardware (r.pkt (dhcp + hlenOff)).toNat (Relay.replyDest r.pkt dhcp option) r r') ∧
    (¬(∀ ip, Relay.replyDest r.pkt dhcp option = .unicast ip →
        (r.pkt (dhcp + hlenOff)).toNat ≤ arpReqRoom) → ∃ fault,
      Relay.relayToClient rounds host ifIndex ifName p dhcp r = .error fault) := by
  unfold Relay.relayToClient CopiesHardware
  rw [hpick]
  dsimp only
  cases hdest : Relay.replyDest r.pkt dhcp option with
  | broadcast =>
    refine ⟨fun _ => ?_, fun hnot => absurd (fun _ h => absurd h (by simp)) hnot⟩
    obtain ⟨r', hrun, hsends, -⟩ := @sendReply_sends host p r n ifIndex ipAddressBcast hp
    exact ⟨r', hrun, hsends, fun _ h => absurd h (by simp)⟩
  | nowhere =>
    refine ⟨fun _ => ?_, fun hnot => absurd (fun _ h => absurd h (by simp)) hnot⟩
    dsimp only
    rw [State.count_eq _ hp]
    exact ⟨_, rfl, ⟨[], (List.append_nil _).symm, rfl⟩, fun _ h => absurd h (by simp)⟩
  | unicast sinAddr =>
    simp only [Relay.ReplyDest.unicast.injEq, forall_eq']
    constructor
    · intro hroom
      -- the address fits into the ARP request, which goes before the datagram
      rw [if_neg (Nat.not_lt_of_le hroom)]
      obtain ⟨r', hrun, hsends, harp⟩ := @sendReply_sends host p { r with arpReqs := r.arpReqs ++
        [arpRequest ifName sinAddr (r.pkt (dhcp + htypeOff))
          (slice r.pkt (dhcp + chaddrOff) (r.pkt (dhcp + hlenOff)).toNat)] } n ifIndex sinAddr hp
      exact ⟨r', hrun, hsends, _, harp, length_slice _ _ _⟩
    · intro hover
      rw [if_pos (Nat.lt_of_not_le hover)]
      exact ⟨_, rfl⟩

/-- A reply that is not dropped goes on to the client with what option 82 processing left. -/
theorem relayToDhcpClient_relayed {cfg : FeatureConfig}
    (h : replyNode host r = some (ifIndex, ifName, p)) (hl : Linked r.state)
    (hrelayed : (replyOutcome cfg host ifIndex ifName r).result ≠ .dropped) :
    ∃ state n, state.nodes p = some n ∧ ∀ rounds, Relay.relayToDhcpClient rounds cfg host r
      = Relay.relayToClient rounds host ifIndex ifName p (dhcp r.pkt)
        { r with pkt := (replyOutcome cfg host ifIndex ifName r).pkt, state } := by
  obtain ⟨-, -, -, hfind⟩ := replyNode_eq_some h
  obtain ⟨n, hp, -⟩ := (hl.shashFind_eq_some_iff ifName p).mp hfind
  have hrun := fun rounds => relayToDhcpClient_eq rounds cfg h hp
  simp only at hrun
  generalize replyOutcome cfg host ifIndex ifName r = outcome at hrun hrelayed ⊢
  -- a valid result is counted first, and the node is alive with the counter changed
  cases hresult : outcome.result with
  | dropped => exact absurd hresult hrelayed
  | valid =>
    simp only [hresult] at hrun
    exact ⟨_, _, State.nodes_counted serverValidWithOption82 hp, hrun⟩
  | noop =>
    simp only [hresult] at hrun
    exact ⟨r.state, n, hp, hrun⟩

end client

/-- The interface with the index has the address. -/
def Host.Owns (host : Host) (ifIndex : UInt32) (ip : IpAddress) : Prop :=
  ∃ ifaddr ifNi ifa i, host.getifaddrs = some ifaddr ∧ host.ifNameindex = some ifNi ∧
    ifa ∈ ifaddr ∧ ifa.ifaAddr = .inet ip ∧ i ∈ ifNi ∧ i.1 = ifIndex ∧
    sameIfName i.2 ifa.ifaName = true

/-- The index that is found for an address is that of an interface with the address. -/
theorem owns_getIfIndexfromIpAddress {host : Host} {ip : IpAddress}
    (h : host.getIfIndexfromIpAddress ip ≠ Host.noIfIndex) :
    host.Owns (host.getIfIndexfromIpAddress ip) ip := by
  unfold Host.getIfIndexfromIpAddress at h ⊢
  cases hni : host.ifNameindex with
  | none => simp [hni] at h
  | some ifNi =>
    cases hifs : host.getifaddrs with
    | none => simp [hni, hifs] at h
    | some ifaddr =>
      simp only [hni, hifs] at h ⊢
      -- the index is that of the first address in the list that is the one looked for
      cases hfound : ifaddr.findSome? (Host.ifIndexOf ifNi ip) with
      | none => simp [hfound] at h
      | some index =>
        obtain ⟨ifa, hifa, hindex⟩ := List.exists_of_findSome?_eq_some hfound
        unfold Host.ifIndexOf at hindex
        cases haddr : ifa.ifaAddr with
        | packet mac => simp [haddr] at hindex
        | other => simp [haddr] at hindex
        | inet ipaddr =>
          simp only [haddr] at hindex
          split at hindex
          · rename_i heq
            obtain ⟨i, hi, rfl⟩ := Option.map_eq_some_iff.mp hindex
            have hname : sameIfName i.2 ifa.ifaName = true := by
              have hsome := List.find?_some hi
              exact hsome
            exact ⟨ifaddr, ifNi, ifa, i, hifs, hni, hifa, by rw [haddr, heq],
              List.mem_of_find?_eq_some hi, rfl, hname⟩
          · exact absurd hindex (by simp)

/-! ## The destination -/

/-- Where a reply of the given type goes. -/
def typeDest (pkt : Packet) (type : Option UInt8) : Relay.ReplyDest :=
  if udpfwdDhcpBroadcastFlag ≤ ntohs pkt (dhcp pkt + flagsOff) ∨ type = some dhcpnak then
    .broadcast
  else if type = some dhcpack ∧ ipAt pkt (dhcp pkt + yiaddrOff) = 0 then
    if ipAt pkt (dhcp pkt + ciaddrOff) = 0 then .nowhere
    else .unicast (ipAt pkt (dhcp pkt + ciaddrOff))
  else .unicast (ipAt pkt (dhcp pkt + yiaddrOff))

/-- A reply for a known interface node, not dropped by option 82 processing. -/
structure RelayedReply where
  cfg : FeatureConfig
  host : Host
  r : Relay
  ifIndex : UInt32
  ifName : CString
  p : NodePtr
  headers : 5 ≤ ipHl r.pkt
  op : dhcpOp r.pkt = bootreply
  linked : Linked r.state
  node : replyNode host r = some (ifIndex, ifName, p)
  relayed : (replyOutcome cfg host ifIndex ifName r).result ≠ .dropped

namespace RelayedReply

variable (x : RelayedReply)

/-- Where the message starts. -/
def dhcp : ℤ := Udpfwd.dhcp x.r.pkt

/-- What option 82 processing leaves of the reply. -/
def out : Packet := (replyOutcome x.cfg x.host x.ifIndex x.ifName x.r).pkt

/-- Where a reply of the given type goes. -/
def dest (type : Option UInt8) : Relay.ReplyDest := typeDest x.r.pkt type

/-- The length of the hardware address. -/
def hlen : ℕ := (x.r.pkt (x.dhcp + hlenOff)).toNat

/-- The items of the options field, up to the first message type. -/
abbrev OptionsWalk : Type :=
  FieldWalk x.r.pkt dhcpMsgtype (Udpfwd.dhcp x.r.pkt + optionsOff + magicLen)
    (Udpfwd.dhcp x.r.pkt + dhcpPktlen x.r.pkt)

variable {x}

theorem dhcp_ge : 28 ≤ x.dhcp := by
  have hheaders := x.headers
  unfold dhcp Udpfwd.dhcp udph udphdrLength
  omega

/-- The packet option 82 processing gets: a second less to live. -/
def counted (x : RelayedReply) : Packet := Relay.addToByte x.r.pkt ipTtlOff (-1)

theorem counted_eq {a : ℤ} (ha : 9 ≤ a) : x.counted a = x.r.pkt a := by
  unfold counted Relay.addToByte
  apply store_of_ge
  rw [List.length_singleton]
  unfold ipTtlOff
  omega

theorem counted_front {a : ℤ} (ha : a < 8) : x.counted a = x.r.pkt a := by
  unfold counted Relay.addToByte
  exact store_of_lt _ (by unfold ipTtlOff; omega) _

theorem dhcp_counted : Udpfwd.dhcp x.counted = x.dhcp := dhcp_congr (counted_front (by decide))

theorem pktlen_of_front {pkt : Packet} (h : ∀ a : ℤ, 9 ≤ a → a < x.dhcp + optionsStart →
    pkt a = x.r.pkt a) (hfirst : pkt 0 = x.r.pkt 0) : dhcpPktlen pkt = dhcpPktlen x.r.pkt := by
  have hge := @dhcp_ge x
  have hudph : udph pkt = udph x.r.pkt := udph_congr hfirst
  have hwhere : x.dhcp = udph x.r.pkt + 8 := rfl
  have hlen : ntohs pkt (udph x.r.pkt + uhUlenOff) = ntohs x.r.pkt (udph x.r.pkt + uhUlenOff) := by
    unfold ntohs
    rw [slice_congr pkt x.r.pkt]
    intro i hi
    exact h _ (by unfold uhUlenOff; omega) (by unfold uhUlenOff optionsStart; omega)
  unfold dhcpPktlen
  rw [hudph, hlen]

theorem pktlen_counted : dhcpPktlen x.counted = dhcpPktlen x.r.pkt :=
  pktlen_of_front (fun _ ha _ => counted_eq ha) (counted_front (by decide))

theorem optionsStart_ge : 9 ≤ Udpfwd.dhcp x.r.pkt + optionsOff + magicLen := by
  have hge := @dhcp_ge x
  have hwhere : x.dhcp = Udpfwd.dhcp x.r.pkt := rfl
  unfold optionsOff
  omega

theorem counted_walk (w : x.OptionsWalk) :
    PassedOver x.counted (Udpfwd.dhcp x.counted + dhcpPktlen x.counted)
      dhcpMsgtype (Udpfwd.dhcp x.counted + optionsOff + magicLen) w.items w.last := by
  have hlast := w.start_le_last
  have hwhere : x.dhcp = Udpfwd.dhcp x.r.pkt := rfl
  have hstart := @optionsStart_ge x
  rw [dhcp_counted, pktlen_counted, hwhere]
  have hcells : ∀ a, Udpfwd.dhcp x.r.pkt + optionsOff + magicLen ≤ a → x.counted a = x.r.pkt a :=
    fun a ha => counted_eq (by omega)
  exact w.passed.congr (w.passed.items_congr fun a ha _ => hcells a ha) fun _ => hcells _ hlast

theorem op_counted : dhcpOp x.counted = bootreply := by
  have hge := @dhcp_ge x
  rw [dhcpOp, dhcp_counted, counted_eq (by unfold opOff; omega)]
  exact x.op

/-- What option 82 processing leaves as it is. -/
theorem out_kept (w : x.OptionsWalk) :
    (∀ a : ℤ, 9 ≤ a → a < x.dhcp + optionsStart → x.out a = x.r.pkt a) ∧
      x.out 0 = x.r.pkt 0 ∧ (∀ a : ℤ, 9 ≤ a → a < w.last → x.out a = x.r.pkt a) ∧
      (w.last < x.dhcp + dhcpPktlen x.r.pkt → x.out w.last = x.r.pkt w.last) ∧
      (∀ q, w.first = some q → ∀ a : ℤ, 9 ≤ a → a < q + itemSize x.r.pkt q →
        x.out a = x.r.pkt a) ∧
      (w.items ≠ [] → w.first = none → ∀ a : ℤ, 9 ≤ a → x.out a = x.r.pkt a) := by
  have hge := @dhcp_ge x
  have hlast := w.start_le_last
  obtain ⟨hfront, hitems, hend, htype, hsame⟩ := @process_reply_walk x.cfg x.host x.ifIndex
    x.ifName 0 ⟨0, 0⟩ x.counted _ _ op_counted (counted_walk w)
  -- counting the hop changes no cell behind the time to live
  rw [dhcp_counted, pktlen_counted] at hend htype hsame
  rw [dhcp_counted] at hfront
  have hwhere : x.dhcp = Udpfwd.dhcp x.r.pkt := rfl
  have hcell : ∀ a : ℤ, 9 ≤ a → x.counted a = x.r.pkt a := fun a ha => counted_eq ha
  unfold optionsOff at hlast
  refine ⟨fun a ha hlt => (hfront a hlt).trans (hcell a ha), ?_,
    fun a ha hlt => (hitems a hlt).trans (hcell a ha),
    fun hlt => (hend hlt).trans (hcell _ (by omega)), fun q hq a ha hlt => ?_,
    fun hitem hnone a ha => ?_⟩
  · have hfirst : x.out 0 = x.counted 0 := hfront 0 (by omega)
    rw [hfirst, counted_front (by decide)]
  · unfold FieldWalk.first found at hq
    split at hq
    · rename_i hfound
      obtain rfl := Option.some.inj hq
      have hsize : itemSize x.counted w.last = itemSize x.r.pkt w.last := by
        unfold itemSize
        rw [hcell _ (by omega), hcell _ (by omega)]
      have hkept := htype hfound.1 (by rw [hcell _ (by omega)]; exact hfound.2) a
        (by rw [hsize]; exact hlt)
      exact hkept.trans (hcell a ha)
    · exact absurd hq (by simp)
  · refine (hsame hitem (fun hfound => ?_) a).trans (hcell a ha)
    unfold FieldWalk.first found at hnone
    rw [hcell _ (by omega)] at hfound
    rw [hwhere] at hfound
    rw [if_pos hfound] at hnone
    exact absurd hnone (by simp)

/-- The options that are searched in what is left are those of the received reply. -/
theorem out_walk (w : x.OptionsWalk) :
    PassedOver x.out (Udpfwd.dhcp x.r.pkt + dhcpPktlen x.r.pkt) dhcpMsgtype
        (Udpfwd.dhcp x.r.pkt + optionsOff + magicLen) w.items w.last ∧
      (∀ r ∈ w.items, x.out r = x.r.pkt r ∧
        (x.r.pkt r ≠ pad → x.out (r + 1) = x.r.pkt (r + 1))) ∧
      found x.out (Udpfwd.dhcp x.r.pkt + dhcpPktlen x.r.pkt) dhcpMsgtype w.last = w.first := by
  have hstart := @optionsStart_ge x
  have hwhere : x.dhcp = Udpfwd.dhcp x.r.pkt := rfl
  obtain ⟨-, -, hitems, hend, -, -⟩ := out_kept w
  rw [hwhere] at hend
  -- the search reads tags and lengths in front of the end of the walk only
  have hcells : ∀ a, Udpfwd.dhcp x.r.pkt + optionsOff + magicLen ≤ a → a < w.last →
      x.out a = x.r.pkt a := fun a ha hlt => hitems a (by omega) hlt
  refine ⟨w.passed.congr (w.passed.items_congr hcells) hend, w.passed.items_congr hcells, ?_⟩
  unfold FieldWalk.first found
  by_cases hlt : w.last < Udpfwd.dhcp x.r.pkt + dhcpPktlen x.r.pkt
  · rw [hend hlt]
  · rw [if_neg fun hboth => hlt hboth.1, if_neg fun hboth => hlt hboth.1]

/-- The fixed fields. -/
theorem out_front {a : ℤ} (ha : 9 ≤ a) (hlt : a < x.dhcp + optionsStart) :
    x.out a = x.r.pkt a := by
  obtain ⟨w⟩ := fieldWalk_nonempty x.r.pkt dhcpMsgtype
    (Udpfwd.dhcp x.r.pkt + optionsOff + magicLen) (Udpfwd.dhcp x.r.pkt + dhcpPktlen x.r.pkt)
  exact (out_kept w).1 a ha hlt

theorem pktlen_out : dhcpPktlen x.out = dhcpPktlen x.r.pkt := by
  obtain ⟨w⟩ := fieldWalk_nonempty x.r.pkt dhcpMsgtype
    (Udpfwd.dhcp x.r.pkt + optionsOff + magicLen) (Udpfwd.dhcp x.r.pkt + dhcpPktlen x.r.pkt)
  exact pktlen_of_front (out_kept w).1 (out_kept w).2.1

/-- The octet that is read as the value of the first message type. -/
theorem out_octet (w : x.OptionsWalk) {q : ℤ} (hfirst : w.first = some q) :
    x.out (q + 2) = typeOctet x.cfg x.r.pkt q := by
  have hwhere : x.dhcp = Udpfwd.dhcp x.r.pkt := rfl
  have hge := @dhcp_ge x
  have hstart := @optionsStart_ge x
  have hlast := w.start_le_last
  unfold FieldWalk.first found at hfirst
  split at hfirst
  · rename_i hfound
    obtain rfl := Option.some.inj hfirst
    -- when it is processed, the message differs from the received one in its TTL only
    have hcell : ∀ a : ℤ, 9 ≤ a → x.counted a = x.r.pkt a := fun a ha => counted_eq ha
    have hoctet := @process_reply_octet x.cfg x.host x.ifIndex x.ifName 0 ⟨0, 0⟩ x.counted _ _
      op_counted (counted_walk w) (by rw [dhcp_counted, pktlen_counted]; exact hfound.1)
      (by rw [hcell _ (by omega)]; exact hfound.2) x.relayed
    exact hoctet.trans (typeOctet_congr dhcp_counted pktlen_counted hcell
      (by unfold optionsOff; omega) (by omega))
  · exact absurd hfirst (by simp)

/-- The destination that is chosen, by the octet that is read for the type. -/
theorem replyDest_eq {o : Option ℤ} {type : Option UInt8}
    (htype : (o.map fun q => x.out (q + 2)) = type) :
    Relay.replyDest x.out x.dhcp o = x.dest type := by
  have hge := @dhcp_ge x
  have hflags : ntohs x.out (x.dhcp + flagsOff) = ntohs x.r.pkt (x.dhcp + flagsOff) := by
    unfold ntohs
    rw [slice_congr x.out x.r.pkt]
    intro i hi
    exact out_front (by unfold flagsOff; omega) (by unfold flagsOff optionsStart; omega)
  have hip : ∀ off : ℤ, 0 ≤ off → off ≤ 24 →
      ipAt x.out (x.dhcp + off) = ipAt x.r.pkt (x.dhcp + off) := by
    intro off hoff hle
    unfold ipAt
    rw [slice_congr x.out x.r.pkt]
    intro i hi
    exact out_front (by omega) (by unfold optionsStart; omega)
  -- the type octet is read from where the search has found it
  have hread : ∀ t : UInt8, (o.any fun opt => x.out (opt + 2) = t) = true ↔ type = some t := by
    intro t
    rw [← htype]
    cases o with
    | none => simp
    | some q => simp
  unfold Relay.replyDest
  simp only [hflags, hip yiaddrOff (by decide) (by decide), hip ciaddrOff (by decide) (by decide),
    hread]
  show _ = typeDest x.r.pkt type
  unfold typeDest
  have hwhere : Udpfwd.dhcp x.r.pkt = x.dhcp := rfl
  rw [hwhere]
  split
  · rfl
  · split
    · by_cases hci : ipAt x.r.pkt (x.dhcp + ciaddrOff) = 0
      · rw [if_neg (not_not_intro hci), if_pos hci]
      · rw [if_pos hci, if_neg hci]
    · rfl

theorem hlen_out : (x.out (x.dhcp + hlenOff)).toNat = x.hlen := by
  have hge := @dhcp_ge x
  rw [out_front (by unfold hlenOff; omega) (by unfold hlenOff optionsStart; omega)]
  rfl

end RelayedReply

/-- A reply whose options up to the first message type have lengths of at most 127, with no overload
option among them. -/
structure ClientReply extends RelayedReply where
  walk : FieldWalk r.pkt dhcpMsgtype (dhcp r.pkt + optionsOff + magicLen)
    (dhcp r.pkt + dhcpPktlen r.pkt)
  short : walk.Short
  noOverload : ∀ p ∈ walk.items, r.pkt p ≠ optOverload

namespace ClientReply

open RelayedReply

variable (x : ClientReply)

/-- The value of the first message type, which has one if it is not empty. -/
def messageType : Option UInt8 :=
  x.walk.first.bind fun q => if x.r.pkt (q + 1) = 0 then none else some (x.r.pkt (q + 2))

/-- The octet that is read as the value. -/
def readType : Option UInt8 := x.walk.first.map fun q => x.out (q + 2)

/-- The first message type is empty. -/
def EmptyType : Prop := ∃ q, x.walk.first = some q ∧ x.r.pkt (q + 1) = 0

/-- The reply goes where its type says, on the interface that has the relay agent address. -/
def GoesToClient : Prop :=
  x.host.Owns x.ifIndex (giaddr x.r.pkt) ∧ ∃ rounds₀, ∀ rounds ≥ rounds₀, ∃ r',
    Relay.relayToDhcpClient rounds x.cfg x.host x.r = .ok r' ∧
      SendsTo x.ifIndex (x.dest x.messageType).address x.r r'

variable {x}

/-- The octet that is read, by the received reply. -/
theorem readType_received : x.readType = x.walk.first.map (typeOctet x.cfg x.r.pkt) := by
  unfold readType
  cases hfirst : x.walk.first with
  | none => rfl
  | some q => exact congrArg some (out_octet (x := x.toRelayedReply) x.walk hfirst)

/-- The search finds the message type of the received reply. -/
theorem pickup {rounds : ℕ} (h : x.walk.items.length < rounds) :
    dhcpPickupOpt rounds x.out x.dhcp (dhcpPktlen x.out) dhcpMsgtype = some x.walk.first := by
  have hwhere : x.dhcp = Udpfwd.dhcp x.r.pkt := rfl
  obtain ⟨hpassed, hsame, hfound⟩ := out_walk (x := x.toRelayedReply) x.walk
  have hshort : ∀ p ∈ x.walk.items, ShortLength x.out p := by
    intro p hp hpad
    obtain ⟨htag, hlen⟩ := hsame p hp
    rw [htag] at hpad
    rw [hlen hpad]
    exact x.short p hp hpad
  -- no overload option is passed, so the search ends with the options field
  have hover : lastOverload x.out 0 x.walk.items = 0 := by
    apply lastOverload_of_none
    intro p hp
    rw [(hsame p hp).1]
    exact x.noOverload p hp
  have hscan := dhcpScanOpt_passed hpassed hshort 0 h
  rw [hover, hfound] at hscan
  unfold dhcpPickupOpt
  rw [pktlen_out, hwhere, hscan]
  unfold FieldWalk.first
  cases found x.r.pkt (Udpfwd.dhcp x.r.pkt + dhcpPktlen x.r.pkt) dhcpMsgtype x.walk.last with
  | none => simp
  | some q => simp

/-- The octet that is read is the value of a message type that has one. -/
theorem readType_eq (h : ¬x.EmptyType) : x.readType = x.messageType := by
  rw [readType_received]
  unfold messageType
  cases hfirst : x.walk.first with
  | none => rfl
  | some q =>
    have hlen : x.r.pkt (q + 1) ≠ 0 := fun hzero => h ⟨q, hfirst, hzero⟩
    rw [Option.map_some, Option.bind_some, if_neg hlen]
    exact congrArg some (if_neg fun hall => hlen hall.2.1)

theorem messageType_of_empty (h : x.EmptyType) : x.messageType = none := by
  obtain ⟨q, hfirst, hzero⟩ := h
  unfold messageType
  rw [hfirst, Option.bind_some, if_pos hzero]

end ClientReply

theorem SendsTo.address_eq {ifIndex : UInt32} {dest dest' : Option IpAddress} {r r' : Relay}
    (h : SendsTo ifIndex dest r r') (h' : SendsTo ifIndex dest' r r') : dest = dest' := by
  obtain ⟨ds, hsent, hds⟩ := h
  obtain ⟨ds', hsent', hds'⟩ := h'
  rw [hsent] at hsent'
  rw [← List.append_cancel_left hsent', hds] at hds'
  cases dest <;> cases dest' <;> simp_all

/-- A reply goes where its message type says if and only if the octet behind an empty message type
leads nowhere else, and the hardware address of a unicast reply fits into the ARP request. -/
theorem goesToClient_iff (x : ClientReply) :
    x.GoesToClient ↔
      (x.EmptyType → (x.dest x.readType).address = (x.dest none).address) ∧
        ∀ ip, x.dest x.readType = .unicast ip → x.hlen ≤ arpReqRoom := by
  obtain ⟨state, n, hp, hrelay⟩ := relayToDhcpClient_relayed x.node x.linked x.relayed
  -- with enough rounds the reply is sent, or the copy for the ARP request overruns
  have hclient : ∀ rounds, x.walk.items.length < rounds → _ := fun rounds h =>
    @relayToClient_sends x.host x.p { x.r with pkt := x.out, state } n x.ifIndex x.ifName rounds
      x.dhcp x.walk.first hp (ClientReply.pickup h)
  have hdest : Relay.replyDest x.out x.dhcp x.walk.first = x.dest x.readType :=
    RelayedReply.replyDest_eq rfl
  simp only [hdest, RelayedReply.hlen_out] at hclient
  have hrun : ∀ rounds, Relay.relayToDhcpClient rounds x.cfg x.host x.r
      = Relay.relayToClient rounds x.host x.ifIndex x.ifName x.p x.dhcp
        { x.r with pkt := x.out, state } := hrelay
  have hempty : ¬x.EmptyType → (x.dest x.readType).address = (x.dest x.messageType).address := by
    intro h
    rw [ClientReply.readType_eq h]
  unfold ClientReply.GoesToClient
  simp only [hrun]
  constructor
  · -- any number of rounds that is large enough will do
    rintro ⟨-, rounds₀, hall⟩
    obtain ⟨r', hok, hsends⟩ := hall (max rounds₀ (x.walk.items.length + 1)) (le_max_left _ _)
    obtain ⟨hends, hfails⟩ := hclient (max rounds₀ (x.walk.items.length + 1))
      (Nat.lt_of_lt_of_le (Nat.lt_succ_self _) (le_max_right _ _))
    by_cases hroom : ∀ ip, x.dest x.readType = .unicast ip → x.hlen ≤ arpReqRoom
    · refine ⟨fun h => ?_, hroom⟩
      obtain ⟨r'', hok', hsends', -⟩ := hends hroom
      rw [hok, Except.ok.injEq] at hok'
      subst hok'
      rw [ClientReply.messageType_of_empty h] at hsends
      exact SendsTo.address_eq hsends' hsends
    · obtain ⟨fault, herror⟩ := hfails hroom
      rw [hok] at herror
      exact absurd herror (by simp)
  · rintro ⟨htype, hroom⟩
    obtain ⟨hindex, hne, -⟩ := replyNode_eq_some x.node
    refine ⟨hindex ▸ owns_getIfIndexfromIpAddress (hindex ▸ hne), x.walk.items.length + 1,
      fun rounds hrounds => ?_⟩
    obtain ⟨r', hok, hsends, -⟩ := (hclient rounds hrounds).1 hroom
    have haddress : (x.dest x.readType).address = (x.dest x.messageType).address := by
      by_cases h : x.EmptyType
      · rw [ClientReply.messageType_of_empty h]
        exact htype h
      · exact hempty h
    rw [haddress] at hsends
    exact ⟨r', hok, hsends⟩

/-- A DHCPACK for 10.0.0.7 by interface `1`, with 255 for the length of the hardware address. -/
def longAddressReply : Relay where
  pkt := store (store (requestPacket [10, 0, 0, 1] [dhcpMsgtype, 1, 5, endTag]) 28
    [bootreply, 1, 255]) 44 [10, 0, 0, 7]
  pktInfo := ⟨3, 0, 0x0100000a⟩
  state := helperCache.state

/-- The same reply, with option 82 processing off. -/
def longAddressAck : ClientReply where
  cfg := ⟨0x0002, .replace, .mac⟩
  host := helperHost
  r := longAddressReply
  ifIndex := 3
  ifName := ['1']
  p := 0
  headers := by decide
  op := by decide +kernel
  linked := helperCache_linked
  node := by decide +kernel
  relayed := by decide +kernel
  walk := ⟨[], 268, .done (by decide +kernel)⟩
  short := by unfold FieldWalk.Short; decide
  noOverload := by decide

/-- Its hardware address is copied beyond the end of the ARP request. -/
theorem longAddressAck_lost : ¬∀ x : ClientReply, x.GoesToClient := by
  intro hall
  obtain ⟨-, rounds₀, hgoes⟩ := hall longAddressAck
  obtain ⟨r', hrun, -⟩ := hgoes (rounds₀ + 1) (Nat.le_succ _)
  have hfault : Relay.relayToDhcpClient (rounds₀ + 1) longAddressAck.cfg longAddressAck.host
      longAddressAck.r = .error .scratchBounds := rfl
  rw [hrun] at hfault
  exact absurd hfault (by simp)

/-! ## The ARP request -/

/-- `DHCP_CHADDR_MAX`. -/
def dhcpChaddrMax : ℕ := 16

/-- The bytes of `sa_data`. -/
def saDataLength : ℕ := 14

/-- A datagram that takes the unicast branch of `udpfwd_relay_to_dhcp_client`, with the interface,
the message type and the address that are found for it. -/
structure UnicastReply where
  rounds : ℕ
  cfg : FeatureConfig
  host : Host
  size : ℕ
  r : Relay
  ifIndex : UInt32
  ifName : CString
  p : NodePtr
  option : Option ℤ
  ip : IpAddress
  headers : 5 ≤ ipHl r.pkt
  port : UInt16.ofNat (ntohs r.pkt (udph r.pkt + uhDportOff)) = dhcpsPort ∨
    UInt16.ofNat (ntohs r.pkt (udph r.pkt + uhDportOff)) = dhcpcPort
  enabled : cfg.enabled .dhcpRelay = true
  op : dhcpOp r.pkt = bootreply
  toRelay : ipAt r.pkt ipDstOff ≠ ipAddressBcast
  linked : Linked r.state
  node : replyNode host r = some (ifIndex, ifName, p)
  relayed : (replyOutcome cfg host ifIndex ifName r).result ≠ .dropped
  picked : dhcpPickupOpt rounds (replyOutcome cfg host ifIndex ifName r).pkt (dhcp r.pkt)
    (dhcpPktlen (replyOutcome cfg host ifIndex ifName r).pkt) dhcpMsgtype = some option
  unicast : Relay.replyDest (replyOutcome cfg host ifIndex ifName r).pkt (dhcp r.pkt) option
    = .unicast ip

namespace UnicastReply

variable (x : UnicastReply)

/-- The length of the hardware address in the received datagram. -/
def hlen : ℕ := (x.r.pkt (dhcp x.r.pkt + hlenOff)).toNat

/-- The hardware address that is copied fits into both of its fields. -/
def CopyBounded : Prop :=
  ∃ r' req, Relay.udpfwdCtrl x.rounds x.cfg x.host x.size x.r = .ok r' ∧
    r'.arpReqs = x.r.arpReqs ++ [req] ∧ req.haData.length ≤ dhcpChaddrMax ∧
    req.haData.length ≤ saDataLength

variable {x}

theorem udpfwdCtrl_eq : Relay.udpfwdCtrl x.rounds x.cfg x.host x.size x.r
    = Relay.relayToDhcpClient x.rounds x.cfg x.host x.r := by
  have hrequest : dhcpOp x.r.pkt ≠ bootrequest := by
    rw [x.op]
    decide
  unfold Relay.udpfwdCtrl
  dsimp only
  rw [if_pos x.port, if_neg (not_not_intro x.enabled), if_neg hrequest, if_pos x.op,
    if_pos x.toRelay]

/-- On the whole way nothing changes the length. -/
theorem hlen_out : ((replyOutcome x.cfg x.host x.ifIndex x.ifName x.r).pkt
    (dhcp x.r.pkt + hlenOff)).toNat = x.hlen := by
  have hheaders := x.headers
  have hge : 28 ≤ dhcp x.r.pkt := by
    unfold dhcp udph udphdrLength
    omega
  have hcell : ∀ a : ℤ, a ≠ 8 → Relay.addToByte x.r.pkt ipTtlOff (-1) a = x.r.pkt a := by
    intro a ha
    unfold Relay.addToByte
    apply store_outside
    rw [List.length_singleton]
    unfold ipTtlOff
    omega
  have hdhcp : dhcp (Relay.addToByte x.r.pkt ipTtlOff (-1)) = dhcp x.r.pkt :=
    dhcp_congr (hcell 0 (by decide))
  have hop : dhcpOp (Relay.addToByte x.r.pkt ipTtlOff (-1)) = bootreply := by
    rw [dhcpOp, hdhcp, hcell _ (by unfold opOff; omega)]
    exact x.op
  have hfront := @process_reply_front x.cfg x.host x.ifIndex x.ifName 0 ⟨0, 0⟩
    (Relay.addToByte x.r.pkt ipTtlOff (-1)) _ _ _ hop (by unfold opOff optionsStart; omega)
    (start_behind _ ⟨0, 0⟩) rfl (dhcp x.r.pkt + hlenOff)
    (by rw [hdhcp]; unfold hlenOff optionsStart; omega)
  have hsame : (replyOutcome x.cfg x.host x.ifIndex x.ifName x.r).pkt (dhcp x.r.pkt + hlenOff)
      = x.r.pkt (dhcp x.r.pkt + hlenOff) :=
    hfront.trans (hcell _ (by unfold hlenOff; omega))
  rw [hsame]
  rfl

end UnicastReply

/-- No check on the way bounds the length of the hardware address: the copy is bounded if and only
if the server's datagram says so. -/
theorem copyBounded_iff (x : UnicastReply) : x.CopyBounded ↔ x.hlen ≤ saDataLength := by
  obtain ⟨state, n, hp, hrelay⟩ := relayToDhcpClient_relayed x.node x.linked x.relayed
  obtain ⟨hends, hfails⟩ := @relayToClient_sends x.host x.p
    { x.r with pkt := (replyOutcome x.cfg x.host x.ifIndex x.ifName x.r).pkt, state } n x.ifIndex
    x.ifName x.rounds (dhcp x.r.pkt) x.option hp x.picked
  simp only [x.unicast, Relay.ReplyDest.unicast.injEq, forall_eq', UnicastReply.hlen_out]
    at hends hfails
  unfold UnicastReply.CopyBounded
  rw [UnicastReply.udpfwdCtrl_eq, hrelay]
  constructor
  · rintro ⟨r', req, hok, harp, -, hsa⟩
    -- a length beyond the request is a fault of the copy, not a longer copy
    by_cases hroom : x.hlen ≤ arpReqRoom
    · obtain ⟨r'', hok', -, hcopy⟩ := hends hroom
      rw [hok, Except.ok.injEq] at hok'
      subst hok'
      obtain ⟨req', harp', hlen⟩ := hcopy x.ip rfl
      rw [harp] at harp'
      obtain rfl : req = req' := by simpa using List.append_cancel_left harp'
      rwa [hlen] at hsa
    · obtain ⟨fault, herror⟩ := hfails hroom
      rw [hok] at herror
      exact absurd herror (by simp)
  · intro hsa
    unfold saDataLength at *
    obtain ⟨r', hok, -, hcopy⟩ := hends (by unfold arpReqRoom; omega)
    obtain ⟨req, harp, hlen⟩ := hcopy x.ip rfl
    exact ⟨r', req, hok, harp, by unfold dhcpChaddrMax; omega, by omega⟩

/-- The DHCPACK as a datagram for the relay. -/
def longAddressDatagram : UnicastReply where
  rounds := 1
  cfg := ⟨0x0002, .replace, .mac⟩
  host := helperHost
  size := 272
  r := { longAddressReply with pkt := store longAddressReply.pkt 22 [0, 67] }
  ifIndex := 3
  ifName := ['1']
  p := 0
  option := some 268
  ip := 0x0700000a
  headers := by decide
  port := by decide +kernel
  enabled := by decide
  op := by decide +kernel
  toRelay := by decide +kernel
  linked := helperCache_linked
  node := by decide +kernel
  relayed := by decide +kernel
  picked := by decide +kernel
  unicast := by rfl

/-- 255 bytes are copied. -/
theorem longAddressDatagram_overruns : ¬∀ x : UnicastReply, x.CopyBounded := by
  intro hall
  obtain ⟨r', req, hrun, -⟩ := hall longAddressDatagram
  have hfault : Relay.udpfwdCtrl longAddressDatagram.rounds longAddressDatagram.cfg
      longAddressDatagram.host longAddressDatagram.size longAddressDatagram.r
      = .error .scratchBounds := rfl
  rw [hrun] at hfault
  exact absurd hfault (by simp)

end Udpfwd
end IpApps
