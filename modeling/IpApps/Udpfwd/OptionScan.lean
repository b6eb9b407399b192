import IpApps.Udpfwd.DhcpOptions

/-!
# The option loop on complete options

What the option loop does with a request whose options are pads and complete options. An
item changes the scan as `Scan.absorb` says: a pad and an option that stays are copied
down to the write pointer, a relay agent option after the message type is stripped. This
holds of an option that stays only if the move leaves its length octet in place
(`LengthsKept`), since the loop reads the octet again after the move.
-/

namespace IpApps
namespace Udpfwd

open Memory Endian

abbrev DhcpOpt := Tlv.Opt dhcpFormat
abbrev DhcpItem := Tlv.Item dhcpFormat

/-! ## What the loop makes of items -/

/-- Whether the loop strips an option, once it has or has not seen the message type. -/
def Strips (isDhcp : Bool) (o : DhcpOpt) : Bool := isDhcp ∧ o.tag = dhcpAgentOptions

/-- The items that stay. -/
def strip : Bool → List DhcpItem → List DhcpItem
  | _, [] => []
  | isDhcp, .pad :: items => .pad :: strip isDhcp items
  | isDhcp, .opt o :: items =>
    if Strips isDhcp o then strip isDhcp items
    else .opt o :: strip (isDhcp || o.tag = dhcpMsgtype) items

/-- The value of a max-message-size option as the loop keeps it. -/
def maxMsgSizeOf (o : DhcpOpt) : ℕ :=
  if beVal o.body < maxDhcpMessageSize then 0 else beVal o.body

/-- The maximum message size after the options. -/
def maxMsgSizeAfter (maxMsgSize : ℕ) (os : List DhcpOpt) : ℕ :=
  os.foldl (fun size o => if o.tag = dhcpMaxmsgsize then maxMsgSizeOf o else size) maxMsgSize

/-- The length octet of every option that stays can be read again after the move: nothing
was stripped before it, or the option is too short to reach over its old length octet, or
the byte that gets there is the same. `shift` is the number of bytes stripped so far. -/
def LengthsKept : ℕ → Bool → List DhcpItem → Prop
  | _, _, [] => True
  | shift, isDhcp, .pad :: items => LengthsKept shift isDhcp items
  | shift, isDhcp, .opt o :: items =>
    if Strips isDhcp o then LengthsKept (shift + o.size) isDhcp items
    else
      (shift = 0 ∨ o.body.length < shift ∨ o.body[shift - 1]? = some o.len) ∧
        LengthsKept shift (isDhcp || o.tag = dhcpMsgtype) items

/-- The scan after an item. -/
def Scan.absorb (s : Scan) : DhcpItem → Scan
  | .pad =>
    { s with pkt := store s.pkt s.sp [pad], endPad := some s.sp, sp := s.sp + 1
             optionParserPtr := s.optionParserPtr + 1 }
  | .opt o =>
    if Strips s.isDhcp o then
      { s with endPad := none, optionParserPtr := s.optionParserPtr + o.size }
    else
      { s with
        pkt := store s.pkt s.sp o.encode, endPad := none, sp := s.sp + o.size
        optionParserPtr := s.optionParserPtr + o.size
        isDhcp := s.isDhcp || o.tag = dhcpMsgtype
        maxMsgSize := maxMsgSizeAfter s.maxMsgSize [o] }

/-- The scan after items. -/
def Scan.absorbAll (s : Scan) (items : List DhcpItem) : Scan := items.foldl Scan.absorb s

/-- Without relay agent options nothing moves. -/
theorem lengthsKept_of_no_agent {items : List DhcpItem}
    (h : ∀ o ∈ Tlv.options items, o.tag ≠ dhcpAgentOptions) (isDhcp : Bool) :
    LengthsKept 0 isDhcp items := by
  induction items generalizing isDhcp with
  | nil => trivial
  | cons item items ih =>
    cases item with
    | pad => exact ih h isDhcp
    | opt o =>
      have ho := h o List.mem_cons_self
      have hrest := fun o' ho' => h o' (List.mem_cons_of_mem o ho')
      unfold LengthsKept
      rw [if_neg (by simp [Strips, ho])]
      exact ⟨Or.inl rfl, ih hrest _⟩

/-! ## The parts of the scan after items -/

theorem length_encode_strip_le (isDhcp : Bool) (items : List DhcpItem) :
    (Tlv.encode (strip isDhcp items)).length ≤ (Tlv.encode items).length := by
  induction items generalizing isDhcp with
  | nil => exact Nat.le_refl 0
  | cons item items ih =>
    cases item with
    | pad =>
      have hrest := ih isDhcp
      simp only [strip, Tlv.encode_pad, List.length_cons]
      omega
    | opt o =>
      unfold strip
      split
      · have hrest := ih isDhcp
        simp only [Tlv.encode_opt, List.length_append]
        omega
      · have hrest := ih (isDhcp || o.tag = dhcpMsgtype)
        simp only [Tlv.encode_opt, List.length_append]
        omega

section absorb

variable (s : Scan)

theorem absorbAll_cons (item : DhcpItem) (items : List DhcpItem) :
    s.absorbAll (item :: items) = (s.absorb item).absorbAll items := rfl

theorem absorbAll_append (xs ys : List DhcpItem) :
    s.absorbAll (xs ++ ys) = (s.absorbAll xs).absorbAll ys := List.foldl_append

/-- The parser pointer passes all items. -/
theorem absorbAll_optionParserPtr (items : List DhcpItem) :
    (s.absorbAll items).optionParserPtr = s.optionParserPtr + (Tlv.encode items).length := by
  induction items generalizing s with
  | nil => simp [Scan.absorbAll]
  | cons item items ih =>
    rw [absorbAll_cons, ih]
    cases item with
    | pad =>
      simp only [Scan.absorb, Tlv.encode_pad, List.length_cons]
      omega
    | opt o =>
      simp only [Scan.absorb, Tlv.encode_opt, List.length_append, Tlv.Opt.length_encode]
      split <;> simp only <;> omega

/-- The write pointer passes the items that stay, which are what is written. -/
theorem absorbAll_written (items : List DhcpItem) :
    (s.absorbAll items).sp = s.sp + (Tlv.encode (strip s.isDhcp items)).length ∧
      (s.absorbAll items).pkt = store s.pkt s.sp (Tlv.encode (strip s.isDhcp items)) := by
  induction items generalizing s with
  | nil => simp [Scan.absorbAll, strip]
  | cons item items ih =>
    rw [absorbAll_cons]
    obtain ⟨hsp, hpkt⟩ := ih (s.absorb item)
    rw [hsp, hpkt]
    cases item with
    | pad =>
      simp only [Scan.absorb, strip, Tlv.encode_pad, List.length_cons]
      constructor
      · omega
      · exact store_store_append s.pkt s.sp [pad] _
    | opt o =>
      simp only [Scan.absorb, strip]
      by_cases hstrip : Strips s.isDhcp o
      · simp only [if_pos hstrip, and_self]
      · simp only [if_neg hstrip, Tlv.encode_opt, List.length_append, Tlv.Opt.length_encode]
        constructor
        · omega
        · rw [← store_store_append s.pkt s.sp o.encode, Tlv.Opt.length_encode]

theorem absorbAll_isDhcp (items : List DhcpItem) :
    (s.absorbAll items).isDhcp
      = (s.isDhcp || (Tlv.options items).any fun o => o.tag = dhcpMsgtype) := by
  induction items generalizing s with
  | nil => simp [Scan.absorbAll]
  | cons item items ih =>
    rw [absorbAll_cons, ih]
    cases item with
    | pad => rfl
    | opt o =>
      rw [Tlv.options_opt, List.any_cons, ← Bool.or_assoc]
      simp only [Scan.absorb]
      by_cases hstrip : Strips s.isDhcp o
      · have htrue : s.isDhcp = true := by simp [Strips] at hstrip; exact hstrip.1
        rw [if_pos hstrip, htrue, Bool.true_or, Bool.true_or, Bool.true_or]
      · rw [if_neg hstrip]

theorem absorbAll_maxMsgSize (items : List DhcpItem) :
    (s.absorbAll items).maxMsgSize = maxMsgSizeAfter s.maxMsgSize (Tlv.options items) := by
  induction items generalizing s with
  | nil => rfl
  | cons item items ih =>
    rw [absorbAll_cons, ih]
    cases item with
    | pad => rfl
    | opt o =>
      rw [Tlv.options_opt, maxMsgSizeAfter, maxMsgSizeAfter, List.foldl_cons]
      congr 1
      simp only [Scan.absorb]
      by_cases hstrip : Strips s.isDhcp o
      · have htag : o.tag = dhcpAgentOptions := by simp [Strips] at hstrip; exact hstrip.2
        rw [if_pos hstrip, if_neg (by rw [htag]; decide)]
      · rw [if_neg hstrip]
        rfl

theorem absorbAll_pktInfo (items : List DhcpItem) :
    (s.absorbAll items).pktInfo = s.pktInfo := by
  induction items generalizing s with
  | nil => rfl
  | cons item items ih =>
    rw [absorbAll_cons, ih]
    cases item with
    | pad => rfl
    | opt o =>
      simp only [Scan.absorb]
      split <;> rfl

/-- The end-of-padding pointer is set by a last pad and by nothing else. -/
theorem absorbAll_endPad_pad (items : List DhcpItem) :
    (s.absorbAll (items ++ [.pad])).endPad = some (s.absorbAll items).sp := by
  rw [absorbAll_append]
  rfl

theorem absorbAll_endPad_opt (items : List DhcpItem) (o : DhcpOpt) :
    (s.absorbAll (items ++ [.opt o])).endPad = none := by
  rw [absorbAll_append]
  simp only [Scan.absorbAll, List.foldl_cons, List.foldl_nil, Scan.absorb]
  split <;> rfl

end absorb

/-! ## A round of the loop -/

section round

variable {s : Scan} {o : DhcpOpt}

/-- The tag and the length octet of the option at the parser pointer. -/
theorem option_head (h : slice s.pkt s.optionParserPtr o.size = o.encode) :
    s.pkt s.optionParserPtr = o.tag ∧ s.pkt (s.optionParserPtr + 1) = o.len := by
  rw [Tlv.Opt.size, slice_succ, slice_succ] at h
  exact ⟨(List.cons.inj h).1, (List.cons.inj (List.cons.inj h).2).1⟩

/-- The body of the option at the parser pointer. -/
theorem option_body (h : slice s.pkt s.optionParserPtr o.size = o.encode) :
    slice s.pkt (s.optionParserPtr + 2) o.body.length = o.body := by
  rw [Tlv.Opt.size, slice_succ, slice_succ, add_assoc] at h
  exact (List.cons.inj (List.cons.inj h).2).2

/-- An option that stays is moved whole, and both pointers pass it, if the length octet is
still there after the move. -/
theorem keepOption_eq (h : slice s.pkt s.optionParserPtr o.size = o.encode) {shift : ℕ}
    (hptr : s.optionParserPtr = s.sp + shift)
    (hlen : shift = 0 ∨ o.body.length < shift ∨ o.body[shift - 1]? = some o.len) :
    s.keepOption = { s with pkt := store s.pkt s.sp o.encode, endPad := none
                            sp := s.sp + o.size
                            optionParserPtr := s.optionParserPtr + o.size } := by
  have hold : s.pkt (s.optionParserPtr + 1) = o.len := (option_head h).2
  have hsize : o.len.toNat + dhcpOptionHeaderLength = o.size := by
    rw [Tlv.Opt.toNat_len]
    rfl
  have hmove : (if s.sp ≠ s.optionParserPtr then
      memmove s.pkt s.sp s.optionParserPtr
        ((s.pkt (s.optionParserPtr + 1)).toNat + dhcpOptionHeaderLength)
      else s.pkt) = store s.pkt s.sp o.encode := by
    rw [hold, hsize]
    split
    · rw [memmove, h]
    · rename_i heq
      rw [← h, ← not_not.mp heq, store_slice_self]
  have hnew : store s.pkt s.sp o.encode (s.optionParserPtr + 1) = o.len := by
    by_cases hout : s.sp + o.encode.length ≤ s.optionParserPtr + 1
    · rw [store_of_ge _ hout, hold]
    · -- the old octet lies under the moved option: the byte there is one of its own
      rw [Tlv.Opt.length_encode, Tlv.Opt.size] at hout
      have hcell := store_inside s.pkt (a := s.sp) (i := shift + 1)
        (show shift + 1 < o.encode.length by rw [Tlv.Opt.length_encode, Tlv.Opt.size]; omega)
      rw [show s.sp + ((shift + 1 : ℕ) : ℤ) = s.optionParserPtr + 1 by omega] at hcell
      apply Option.some.inj
      rw [hcell]
      cases shift with
      | zero => rfl
      | succ k =>
        have hbody : o.body[k]? = some o.len := by
          apply (hlen.resolve_left (by omega)).resolve_left
          omega
        exact hbody
  unfold Scan.keepOption
  simp only [hmove, hnew, hsize]

end round

section step

variable {cfg : FeatureConfig} {host : Host} {ifName : CString} {dhcp max : ℤ} {s : Scan}

/-- The round for a pad. -/
theorem optionStep_pad (h : s.pkt s.optionParserPtr = pad) :
    optionStep cfg host ifName dhcp max s = .next (s.absorb .pad) := by
  unfold optionStep
  rw [h]
  rfl

/-- The round for an option that stays. -/
theorem optionStep_keep {o : DhcpOpt}
    (h : slice s.pkt s.optionParserPtr o.size = o.encode) {shift : ℕ}
    (hptr : s.optionParserPtr = s.sp + shift)
    (hlen : shift = 0 ∨ o.body.length < shift ∨ o.body[shift - 1]? = some o.len)
    (hop : s.pkt (dhcp + opOff) = bootrequest)
    (hmax : o.tag = dhcpMaxmsgsize → o.body.length = 2) (hstay : ¬ Strips s.isDhcp o) :
    optionStep cfg host ifName dhcp max s = .next (s.absorb (.opt o)) := by
  obtain ⟨htag, hoctet⟩ := option_head h
  have hpad : o.tag ≠ pad := o.tag_ne_pad
  have hend : o.tag ≠ endTag := o.tag_ne_stop
  simp only [Scan.absorb, if_neg hstay]
  unfold optionStep
  simp only [htag, if_neg hpad]
  -- the branches that keep an option: message type, size, agent option, any other
  by_cases hmsg : o.tag = dhcpMsgtype
  · rw [if_pos hmsg, keepOption_eq (s := { s with isDhcp := true }) h hptr hlen]
    have hne : dhcpMsgtype ≠ dhcpMaxmsgsize := by decide
    simp [hmsg, maxMsgSizeAfter, hne]
  · rw [if_neg hmsg]
    by_cases hsize : o.tag = dhcpMaxmsgsize
    · -- the size is read before the option is moved
      have hbody := option_body h
      rw [hmax hsize] at hbody
      have htwo : s.pkt (s.optionParserPtr + 1) = 2 := by
        rw [hoctet, Tlv.Opt.len, hmax hsize]
        rfl
      have hvalue : (if ntohs s.pkt (s.optionParserPtr + 2) < maxDhcpMessageSize then 0
          else ntohs s.pkt (s.optionParserPtr + 2)) = maxMsgSizeOf o := by
        rw [ntohs, hbody, maxMsgSizeOf]
      have hne : dhcpMaxmsgsize ≠ dhcpMsgtype := by decide
      rw [if_pos hsize, if_pos hop, if_pos htwo, hvalue]
      rw [keepOption_eq (s := { s with maxMsgSize := maxMsgSizeOf o }) h hptr hlen]
      simp [maxMsgSizeAfter, hsize, hne]
    · rw [if_neg hsize, if_neg hend]
      have hkeep : s.keepOption = { s with
          pkt := store s.pkt s.sp o.encode, endPad := none, sp := s.sp + o.size
          optionParserPtr := s.optionParserPtr + o.size } := keepOption_eq h hptr hlen
      by_cases hagent : o.tag = dhcpAgentOptions
      · have hdhcp : s.isDhcp = false := by simpa [Strips, hagent] using hstay
        rw [if_pos hagent, if_pos (by simp [hdhcp]), hkeep]
        simp [hmsg, maxMsgSizeAfter, hsize]
      · rw [if_neg hagent, hkeep]
        simp [hmsg, maxMsgSizeAfter, hsize]

/-- The round for a relay agent option that the policy replaces. -/
theorem optionStep_strip {o : DhcpOpt}
    (h : slice s.pkt s.optionParserPtr o.size = o.encode)
    (hop : s.pkt (dhcp + opOff) = bootrequest)
    (hgi : ipAt s.pkt (dhcp + giaddrOff) ≠ 0) (hpolicy : cfg.policy = .replace)
    (hstrip : Strips s.isDhcp o) :
    optionStep cfg host ifName dhcp max s = .next (s.absorb (.opt o)) := by
  obtain ⟨htag, hoctet⟩ := option_head h
  simp only [Scan.absorb, if_pos hstrip]
  simp only [Strips, decide_eq_true_eq] at hstrip
  obtain ⟨hdhcp, hagent⟩ := hstrip
  unfold optionStep
  simp only [htag, hagent]
  rw [if_neg (by decide), if_neg (by decide), if_neg (by decide), if_neg (by decide),
    if_pos trivial, if_neg (by simp [hdhcp]), agentOptionStep, if_neg hgi]
  have hreply : s.pkt (dhcp + opOff) ≠ bootreply := by rw [hop]; decide
  simp only [if_neg hreply, if_pos hop, hpolicy, Scan.skipOption, hoctet, Tlv.Opt.toNat_len,
    Tlv.Opt.size, dhcpOptionHeaderLength]
  congr 2
  push_cast
  ring

/-- The round for END. -/
theorem optionStep_end (h : s.pkt s.optionParserPtr = endTag) :
    optionStep cfg host ifName dhcp max s
      = .next { s with pkt := store s.pkt s.sp [endTag], sp := s.sp + 1
                       optionParserPtr := max } := by
  unfold optionStep
  simp only [h]
  rw [if_neg (by decide), if_neg (by decide), if_neg (by decide), if_pos trivial]
  by_cases hsp : s.sp = s.optionParserPtr
  · have hself := store_slice_self s.pkt s.sp 1
    rw [slice_succ, slice_zero, hsp, h] at hself
    rw [if_neg (not_not.mpr hsp), hsp, hself]
  · rw [if_pos hsp]

/-- The loop ends where the parser pointer has passed the options. -/
theorem optionLoop_end (h : max ≤ s.optionParserPtr) (rounds : ℕ) :
    optionLoop cfg host ifName dhcp max rounds s = .next s := by
  cases rounds with
  | zero => rfl
  | succ rounds => rw [optionLoop, if_neg (not_lt.mpr h)]

end step

/-! ## The options of a message -/

/-- The end of the message by its UDP length. -/
theorem optionsMax_of_length {pkt : Packet} {n : ℕ} (h : dhcpPktlen pkt = optionsStart + n) :
    optionsMax pkt = dhcp pkt + optionsStart + n := by
  have hlt := ntohs_lt pkt (udph pkt + uhUlenOff)
  unfold optionsMax
  unfold dhcpPktlen at h ⊢
  omega

/-- Items, the END behind them and what follows. -/
theorem slice_items_end {pkt : Packet} {a : ℤ} {items : List DhcpItem} {rest : List UInt8}
    (h : slice pkt a (Tlv.encode items ++ endTag :: rest).length
      = Tlv.encode items ++ endTag :: rest) :
    slice pkt a (Tlv.encode items).length = Tlv.encode items ∧
      pkt (a + (Tlv.encode items).length) = endTag := by
  rw [List.length_append] at h
  obtain ⟨hitems, hrest⟩ := slice_of_append _ h
  rw [List.length_cons, slice_succ] at hrest
  exact ⟨hitems, (List.cons.inj hrest).1⟩

/-! ## Items ahead of the parser pointer -/

/-- The items ahead of the parser pointer, `shift` bytes having been stripped before it. What
is written lies behind `base`. -/
structure InLine (base : ℤ) (s : Scan) (shift : ℕ) (items : List DhcpItem) : Prop where
  bytes : slice s.pkt s.optionParserPtr (Tlv.encode items).length = Tlv.encode items
  ptr : s.optionParserPtr = s.sp + shift
  behind : base ≤ s.sp

/-- The number of bytes stripped after an item. -/
def shiftAfter (shift : ℕ) (isDhcp : Bool) : DhcpItem → ℕ
  | .pad => shift
  | .opt o => if Strips isDhcp o then shift + o.size else shift

namespace InLine

variable {base : ℤ} {s : Scan} {shift : ℕ} {item : DhcpItem} {items : List DhcpItem}

/-- The first item and the rest. -/
theorem bytes_cons (h : InLine base s shift (item :: items)) :
    slice s.pkt s.optionParserPtr item.encode.length = item.encode ∧
      slice s.pkt (s.optionParserPtr + item.encode.length) (Tlv.encode items).length
        = Tlv.encode items := by
  apply slice_of_append
  have hbytes := h.bytes
  rw [show Tlv.encode (item :: items) = item.encode ++ Tlv.encode items from rfl,
    List.length_append] at hbytes
  exact hbytes

/-- What an item writes lies between the write pointer and the end of the item. -/
theorem absorb_outside (hptr : s.optionParserPtr = s.sp + shift) {a : ℤ}
    (ha : a < s.sp ∨ s.optionParserPtr + item.encode.length ≤ a) :
    (s.absorb item).pkt a = s.pkt a := by
  cases item with
  | pad =>
    apply store_outside
    simp only [Tlv.Item.encode, List.length_singleton] at ha ⊢
    omega
  | opt o =>
    simp only [Scan.absorb]
    split
    · rfl
    · apply store_outside
      simp only [Tlv.Item.encode] at ha
      omega

theorem absorb_optionParserPtr :
    (s.absorb item).optionParserPtr = s.optionParserPtr + item.encode.length := by
  have hall := absorbAll_optionParserPtr s [item]
  rw [show Tlv.encode [item] = item.encode from List.append_nil _] at hall
  exact hall

/-- The items behind the first one are still ahead after its round. -/
theorem absorb (h : InLine base s shift (item :: items)) :
    InLine base (s.absorb item) (shiftAfter shift s.isDhcp item) items := by
  have hptr := h.ptr
  have hbehind := h.behind
  refine ⟨?_, ?_, ?_⟩
  · -- the bytes behind the first item are not written
    have hsame : slice (s.absorb item).pkt (s.optionParserPtr + item.encode.length)
        (Tlv.encode items).length
        = slice s.pkt (s.optionParserPtr + item.encode.length) (Tlv.encode items).length := by
      apply slice_congr
      intro i _
      exact absorb_outside hptr (by omega)
    rw [absorb_optionParserPtr, hsame, h.bytes_cons.2]
  · cases item with
    | pad =>
      simp only [Scan.absorb, shiftAfter]
      omega
    | opt o =>
      simp only [Scan.absorb, shiftAfter]
      split
      · push_cast
        omega
      · simp only
        omega
  · cases item with
    | pad =>
      simp only [Scan.absorb]
      omega
    | opt o =>
      simp only [Scan.absorb]
      split
      · exact hbehind
      · simp only
        omega

/-- In front of the options nothing changes. -/
theorem absorb_front (h : InLine base s shift (item :: items)) {a : ℤ} (ha : a < base) :
    (s.absorb item).pkt a = s.pkt a := by
  have hbehind := h.behind
  exact absorb_outside h.ptr (by omega)

end InLine

/-- The length octets behind the first item. -/
theorem lengthsKept_cons (s : Scan) {shift : ℕ} {item : DhcpItem} {items : List DhcpItem}
    (h : LengthsKept shift s.isDhcp (item :: items)) :
    LengthsKept (shiftAfter shift s.isDhcp item) (s.absorb item).isDhcp items := by
  cases item with
  | pad => exact h
  | opt o =>
    unfold LengthsKept at h
    simp only [Scan.absorb, shiftAfter]
    split at h
    · rename_i hstrip
      simp only [if_pos hstrip]
      exact h
    · rename_i hstay
      simp only [if_neg hstay]
      exact h.2

/-! ## The loop -/

/-- The options the loop does not return at: no maximum message size of another length than 2,
and no relay agent option to strip unless the policy replaces it and a relay agent is named. -/
structure GoesOn (policy : Option82Policy) (giaddr : IpAddress) (isDhcp : Bool)
    (items : List DhcpItem) : Prop where
  size : ∀ o ∈ Tlv.options items, o.tag = dhcpMaxmsgsize → o.body.length = 2
  agent : strip isDhcp items ≠ items → giaddr ≠ 0 ∧ policy = .replace

/-- An item and those behind it. -/
theorem strip_cons (s : Scan) (item : DhcpItem) (items : List DhcpItem) :
    strip s.isDhcp (item :: items)
      = strip s.isDhcp [item] ++ strip (s.absorb item).isDhcp items := by
  cases item with
  | pad => rfl
  | opt o =>
    simp only [strip, Scan.absorb]
    by_cases hstrip : Strips s.isDhcp o
    · rw [if_pos hstrip, if_pos hstrip, if_pos hstrip]
      rfl
    · rw [if_neg hstrip, if_neg hstrip, if_neg hstrip]
      rfl

theorem strip_concat_pad (isDhcp : Bool) (items : List DhcpItem) :
    strip isDhcp (items ++ [.pad]) = strip isDhcp items ++ [.pad] := by
  induction items generalizing isDhcp with
  | nil => rfl
  | cons item items ih =>
    cases item with
    | pad => rw [List.cons_append, strip, strip, ih, List.cons_append]
    | opt o =>
      rw [List.cons_append, strip, strip]
      split
      · exact ih isDhcp
      · rw [ih, List.cons_append]

theorem strip_sublist (isDhcp : Bool) (items : List DhcpItem) :
    (strip isDhcp items).Sublist items := by
  induction items generalizing isDhcp with
  | nil => exact List.Sublist.refl _
  | cons item items ih =>
    cases item with
    | pad => exact (ih isDhcp).cons_cons _
    | opt o =>
      unfold strip
      split
      · exact (ih isDhcp).cons _
      · exact (ih _).cons_cons _

theorem goesOn_cons (s : Scan) {policy : Option82Policy} {giaddr : IpAddress} {item : DhcpItem}
    {items : List DhcpItem} : GoesOn policy giaddr s.isDhcp (item :: items) ↔
      GoesOn policy giaddr s.isDhcp [item] ∧ GoesOn policy giaddr (s.absorb item).isDhcp items := by
  have hoptions : Tlv.options (item :: items) = Tlv.options [item] ++ Tlv.options items :=
    Tlv.options_append [item] items
  have hstrip := strip_cons s item items
  have hfirst := (strip_sublist s.isDhcp [item]).length_le
  have hrest := (strip_sublist (s.absorb item).isDhcp items).length_le
  -- nothing is stripped of a list exactly if nothing is stripped of its parts
  have hsame : strip s.isDhcp (item :: items) = item :: items ↔
      strip s.isDhcp [item] = [item] ∧ strip (s.absorb item).isDhcp items = items := by
    refine ⟨fun h => ?_, fun h => ?_⟩
    · have hlen := congrArg List.length h
      rw [hstrip, List.length_append, List.length_cons] at hlen
      rw [List.length_singleton] at hfirst
      exact ⟨(strip_sublist _ _).eq_of_length (by rw [List.length_singleton]; omega),
        (strip_sublist _ _).eq_of_length (by omega)⟩
    · rw [hstrip, h.1, h.2]
      rfl
  refine ⟨fun h => ⟨⟨?_, ?_⟩, ⟨?_, ?_⟩⟩, fun h => ⟨?_, ?_⟩⟩
  · intro o ho
    apply h.size o
    rw [hoptions]
    exact List.mem_append_left _ ho
  · intro hne
    exact h.agent fun heq => hne (hsame.mp heq).1
  · intro o ho
    apply h.size o
    rw [hoptions]
    exact List.mem_append_right _ ho
  · intro hne
    exact h.agent fun heq => hne (hsame.mp heq).2
  · intro o ho
    rw [hoptions, List.mem_append] at ho
    exact ho.elim (h.1.size o) (h.2.size o)
  · intro hne
    by_cases heq : strip s.isDhcp [item] = [item]
    · exact h.2.agent fun heq' => hne (hsame.mpr ⟨heq, heq'⟩)
    · exact h.1.agent heq

/-- How the loop ends a request before the last option. -/
def ReturnsAt (policy : Option82Policy) (pkt : Packet) (step : ScanStep) : Prop :=
  ∃ result s', step = .ret result s' ∧ s'.pkt = pkt ∧
    (result = .dropped ∨ result = .valid ∧ policy = .keep)

namespace InLine

variable {cfg : FeatureConfig} {host : Host} {ifName : CString} {dhcp max base : ℤ} {s : Scan}
variable {shift : ℕ} {item : DhcpItem} {items : List DhcpItem}

/-- The round of a request for the first item, if the loop does not return at it. -/
theorem step (h : InLine base s shift (item :: items))
    (hlengths : LengthsKept shift s.isDhcp (item :: items))
    (hop : s.pkt (dhcp + opOff) = bootrequest)
    (hgoes : GoesOn cfg.policy (ipAt s.pkt (dhcp + giaddrOff)) s.isDhcp [item]) :
    optionStep cfg host ifName dhcp max s = .next (s.absorb item) := by
  have hbytes := h.bytes_cons.1
  cases item with
  | pad =>
    apply optionStep_pad
    rw [Tlv.Item.encode, List.length_singleton, slice_succ] at hbytes
    exact (List.cons.inj hbytes).1
  | opt o =>
    unfold LengthsKept at hlengths
    by_cases hstrip : Strips s.isDhcp o
    · obtain ⟨hgi, hpolicy⟩ := hgoes.agent (by simp [strip, hstrip])
      exact optionStep_strip hbytes hop hgi hpolicy hstrip
    · rw [if_neg hstrip] at hlengths
      exact optionStep_keep hbytes h.ptr hlengths.1 hop (hgoes.size o (by simp)) hstrip

/-- The round of a request for an item the loop returns at. -/
theorem step_returns (h : InLine base s shift (item :: items))
    (hop : s.pkt (dhcp + opOff) = bootrequest)
    (hgoes : ¬ GoesOn cfg.policy (ipAt s.pkt (dhcp + giaddrOff)) s.isDhcp [item]) :
    ReturnsAt cfg.policy s.pkt (optionStep cfg host ifName dhcp max s) := by
  have hbytes := h.bytes_cons.1
  cases item with
  | pad => exact absurd ⟨by simp, by simp [strip]⟩ hgoes
  | opt o =>
    obtain ⟨htag, hoctet⟩ := option_head hbytes
    unfold optionStep
    simp only [htag]
    by_cases hsize : o.tag = dhcpMaxmsgsize ∧ o.body.length ≠ 2
    · have htwo : s.pkt (s.optionParserPtr + 1) ≠ 2 := by
        intro heq
        apply hsize.2
        rw [← Tlv.Opt.toNat_len, ← hoctet, heq]
        rfl
      rw [hsize.1, if_neg (by decide), if_neg (by decide), if_pos rfl, if_pos hop, if_neg htwo]
      exact ⟨_, _, rfl, rfl, Or.inl rfl⟩
    · -- the option is one that is stripped
      have hstrip : Strips s.isDhcp o = true := by
        by_contra hstay
        refine hgoes ⟨?_, fun hne => absurd (by simp [strip, hstay]) hne⟩
        intro o' ho' htag'
        obtain rfl : o' = o := by simpa using ho'
        exact not_not.mp fun hne => hsize ⟨htag', hne⟩
      have hagent : ipAt s.pkt (dhcp + giaddrOff) = 0 ∨ cfg.policy ≠ .replace := by
        by_contra hboth
        obtain ⟨hgi, hpolicy⟩ := not_or.mp hboth
        refine hgoes ⟨?_, fun _ => ⟨hgi, not_not.mp hpolicy⟩⟩
        intro o' ho' htag'
        obtain rfl : o' = o := by simpa using ho'
        exact not_not.mp fun hne => hsize ⟨htag', hne⟩
      simp only [Strips, decide_eq_true_eq] at hstrip
      have hreply : s.pkt (dhcp + opOff) ≠ bootreply := by
        rw [hop]
        decide
      rw [hstrip.2, if_neg (by decide), if_neg (by decide), if_neg (by decide),
        if_neg (by decide), if_pos rfl, if_neg (by simp [hstrip.1])]
      unfold agentOptionStep
      by_cases hgi : ipAt s.pkt (dhcp + giaddrOff) = 0
      · rw [if_pos hgi]
        exact ⟨_, _, rfl, rfl, Or.inl rfl⟩
      · simp only [if_neg hgi, if_neg hreply, if_pos hop]
        cases hpolicy : cfg.policy with
        | keep => exact ⟨_, _, rfl, rfl, Or.inr ⟨rfl, rfl⟩⟩
        | drop => exact ⟨_, _, rfl, rfl, Or.inl rfl⟩
        | replace => exact absurd hpolicy (hagent.resolve_left hgi)

/-- In front of the options a round reads what it read before. -/
theorem absorb_fields (h : InLine (dhcp + optionsOff + magicLen) s shift (item :: items)) :
    (s.absorb item).pkt (dhcp + opOff) = s.pkt (dhcp + opOff) ∧
      ipAt (s.absorb item).pkt (dhcp + giaddrOff) = ipAt s.pkt (dhcp + giaddrOff) := by
  refine ⟨h.absorb_front (by unfold opOff optionsOff magicLen; omega), ?_⟩
  unfold ipAt
  rw [slice_congr (s.absorb item).pkt s.pkt]
  intro i hi
  exact h.absorb_front (by unfold giaddrOff optionsOff magicLen; omega)

/-- The loop on a request absorbs the items ahead, one a round, or returns in front of one. -/
theorem optionLoop_eq (h : InLine (dhcp + optionsOff + magicLen) s shift items)
    (hlengths : LengthsKept shift s.isDhcp items) (hop : s.pkt (dhcp + opOff) = bootrequest)
    (hmax : s.optionParserPtr + (Tlv.encode items).length ≤ max) (rounds : ℕ) :
    (GoesOn cfg.policy (ipAt s.pkt (dhcp + giaddrOff)) s.isDhcp items →
      optionLoop cfg host ifName dhcp max (items.length + rounds) s
        = optionLoop cfg host ifName dhcp max rounds (s.absorbAll items)) ∧
    (¬ GoesOn cfg.policy (ipAt s.pkt (dhcp + giaddrOff)) s.isDhcp items →
      ∃ before after, items = before ++ after ∧
        (cfg.policy = .keep → strip s.isDhcp before = before) ∧
        ReturnsAt cfg.policy (s.absorbAll before).pkt
          (optionLoop cfg host ifName dhcp max (items.length + rounds) s)) := by
  induction items generalizing s shift with
  | nil =>
    refine ⟨fun _ => ?_, fun hgoes => absurd ⟨by simp, by simp [strip]⟩ hgoes⟩
    rw [List.length_nil, Nat.zero_add, Scan.absorbAll, List.foldl_nil]
  | cons item items ih =>
    have hpos : 0 < item.encode.length := by
      cases item with
      | pad => exact Nat.one_pos
      | opt o => exact Nat.succ_pos _
    have hcons : Tlv.encode (item :: items) = item.encode ++ Tlv.encode items := rfl
    rw [hcons, List.length_append] at hmax
    obtain ⟨hop', hgi⟩ := h.absorb_fields
    have hptr : (s.absorb item).optionParserPtr = s.optionParserPtr + item.encode.length :=
      absorb_optionParserPtr
    have hrest := ih h.absorb (lengthsKept_cons s hlengths) (by rw [hop', hop]) (by omega)
    rw [hgi] at hrest
    rw [goesOn_cons, List.length_cons, show items.length + 1 + rounds = items.length + rounds + 1
      by omega, optionLoop, if_pos (by omega)]
    by_cases hfirst : GoesOn cfg.policy (ipAt s.pkt (dhcp + giaddrOff)) s.isDhcp [item]
    · rw [h.step hlengths hop hfirst]
      refine ⟨fun hgoes => hrest.1 hgoes.2, fun hgoes => ?_⟩
      obtain ⟨before, after, hsplit, hkeep, hret⟩ := hrest.2 fun hgoes' => hgoes ⟨hfirst, hgoes'⟩
      refine ⟨item :: before, after, by rw [hsplit, List.cons_append], fun hpolicy => ?_, hret⟩
      have hstays : strip s.isDhcp [item] = [item] := by
        by_contra hne
        have hreplace := (hfirst.agent hne).2
        rw [hpolicy] at hreplace
        exact absurd hreplace (by decide)
      rw [strip_cons, hstays, hkeep hpolicy]
      rfl
    · -- the loop returns at the first item
      refine ⟨fun hgoes => absurd hgoes.1 hfirst, fun _ => ?_⟩
      obtain ⟨result, s', hstep, hret⟩ := @InLine.step_returns cfg host ifName dhcp max _ s shift
        item items h hop hfirst
      rw [hstep]
      exact ⟨[], item :: items, rfl, fun _ => rfl, result, s', rfl, hret⟩

end InLine

/-- The items that stay are all of them if there is no relay agent option. -/
theorem strip_of_no_agent {items : List DhcpItem}
    (h : ∀ o ∈ Tlv.options items, o.tag ≠ dhcpAgentOptions) (isDhcp : Bool) :
    strip isDhcp items = items := by
  induction items generalizing isDhcp with
  | nil => rfl
  | cons item items ih =>
    cases item with
    | pad => rw [strip, ih h]
    | opt o =>
      have ho := h o List.mem_cons_self
      rw [strip, if_neg (by simp [Strips, ho]),
        ih fun o' ho' => h o' (List.mem_cons_of_mem o ho')]

/-! ## The loop on any packet -/

/-- What the loop leaves alone in any packet: it writes nothing in front of `base`, where
the options start, and the pointers stay behind it. -/
structure Behind (base : ℤ) (pkt : Packet) (s : Scan) : Prop where
  front : ∀ a < base, s.pkt a = pkt a
  sp : base ≤ s.sp
  endPad : ∀ e ∈ s.endPad, base ≤ e

section behind

variable {cfg : FeatureConfig} {host : Host} {ifName : CString} {dhcp max base : ℤ}
variable {pkt : Packet} {s s' : Scan}

/-- The ways a round goes on. -/
theorem optionStep_cases (h : optionStep cfg host ifName dhcp max s = .next s') :
    (s' = { s with pkt := store s.pkt s.sp [s.pkt s.optionParserPtr], endPad := some s.sp
                   sp := s.sp + 1, optionParserPtr := s.optionParserPtr + 1 }) ∨
    (s' = { s with pkt := if s.sp ≠ s.optionParserPtr then
                       store s.pkt s.sp [s.pkt s.optionParserPtr] else s.pkt
                   sp := s.sp + 1, optionParserPtr := max }) ∨
    (∃ endPad isDhcp maxMsgSize, s' = { s with endPad, isDhcp, maxMsgSize }.keepOption ∧
      (s.isDhcp = true → isDhcp = true)) ∨
    (∃ pktInfo goodAgentOption,
      s' = { s with endPad := none, pktInfo, goodAgentOption }.skipOption ∧
        (s.pkt (dhcp + opOff) = bootrequest → pktInfo = s.pktInfo ∧ cfg.policy = .replace) ∧
        s.isDhcp = true) := by
  unfold optionStep at h
  simp only at h
  split at h
  · exact Or.inl (ScanStep.next.inj h).symm
  -- the branches that keep the option differ in the flags only
  have hkeep : ∀ isDhcp maxMsgSize, (s.isDhcp = true → isDhcp = true) →
      ScanStep.next { s with isDhcp, maxMsgSize }.keepOption = .next s' →
      ∃ endPad isDhcp maxMsgSize, s' = { s with endPad, isDhcp, maxMsgSize }.keepOption ∧
        (s.isDhcp = true → isDhcp = true) :=
    fun isDhcp maxMsgSize hdhcp heq =>
      ⟨s.endPad, isDhcp, maxMsgSize, (ScanStep.next.inj heq).symm, hdhcp⟩
  split at h
  · exact Or.inr (Or.inr (Or.inl (hkeep _ _ (fun _ => rfl) h)))
  split at h
  · split at h
    · split at h
      · exact Or.inr (Or.inr (Or.inl (hkeep _ _ id h)))
      · cases h
    · exact Or.inr (Or.inr (Or.inl (hkeep _ _ id h)))
  split at h
  · exact Or.inr (Or.inl (ScanStep.next.inj h).symm)
  split at h
  · split at h
    · exact Or.inr (Or.inr (Or.inl (hkeep _ _ id h)))
    · rename_i hdhcp
      have hdhcp := not_not.mp hdhcp
      unfold agentOptionStep at h
      simp only at h
      split at h
      · cases h
      split at h
      · -- a reply: the option is checked and skipped
        rename_i hreply
        have hop : s.pkt (dhcp + opOff) ≠ bootrequest := by rw [hreply]; decide
        split at h
        · cases h
        · exact Or.inr (Or.inr (Or.inr
            ⟨_, _, (ScanStep.next.inj h).symm, fun hreq => absurd hreq hop, hdhcp⟩))
        · exact Or.inr (Or.inr (Or.inr
            ⟨_, _, (ScanStep.next.inj h).symm, fun hreq => absurd hreq hop, hdhcp⟩))
      split at h
      · split at h
        · cases h
        · cases h
        · rename_i hpolicy
          exact Or.inr (Or.inr (Or.inr
            ⟨_, _, (ScanStep.next.inj h).symm, fun _ => ⟨rfl, hpolicy⟩, hdhcp⟩))
      · exact Or.inr (Or.inr (Or.inl
          ⟨none, s.isDhcp, s.maxMsgSize, (ScanStep.next.inj h).symm, id⟩))
  · exact Or.inr (Or.inr (Or.inl (hkeep _ _ id h)))

/-- A round that returns drops the packet or keeps it, and writes nothing. -/
theorem optionStep_ret {result : Option82Result}
    (h : optionStep cfg host ifName dhcp max s = .ret result s') :
    result ≠ .noop ∧ s'.pkt = s.pkt := by
  have hnext (s₁ : Scan) : ScanStep.next s₁ ≠ .ret result s' := nofun
  have hret {result' : Option82Result} {s₁ : Scan} (heq : ScanStep.ret result' s₁ = .ret result s')
      (hne : result' ≠ .noop) (hpkt : s₁.pkt = s.pkt) : result ≠ .noop ∧ s'.pkt = s.pkt := by
    obtain ⟨rfl, rfl⟩ := ScanStep.ret.inj heq
    exact ⟨hne, hpkt⟩
  unfold optionStep at h
  simp only at h
  split at h
  · exact absurd h (hnext _)
  split at h
  · exact absurd h (hnext _)
  split at h
  · split at h
    · split at h
      · exact absurd h (hnext _)
      · exact hret h nofun rfl
    · exact absurd h (hnext _)
  split at h
  · exact absurd h (hnext _)
  split at h
  · split at h
    · exact absurd h (hnext _)
    unfold agentOptionStep at h
    simp only at h
    split at h
    · exact hret h nofun rfl
    split at h
    · split at h
      · exact hret h nofun rfl
      · exact absurd h (hnext _)
      · exact absurd h (hnext _)
    split at h
    · split at h
      · exact hret h nofun rfl
      · exact hret h nofun rfl
      · exact absurd h (hnext _)
    · exact absurd h (hnext _)
  · exact absurd h (hnext _)

theorem optionLoop_ret {result : Option82Result} {rounds : ℕ}
    (h : optionLoop cfg host ifName dhcp max rounds s = .ret result s') : result ≠ .noop := by
  induction rounds generalizing s with
  | zero => exact absurd h (by simp [optionLoop])
  | succ rounds ih =>
    unfold optionLoop at h
    split at h
    · split at h
      · exact ih h
      · rename_i hstep
        obtain ⟨rfl, rfl⟩ := ScanStep.ret.inj h
        exact (optionStep_ret hstep).1
    · exact absurd h (by simp)

/-- What an option that stays writes lies behind the write pointer. -/
theorem keepOption_front {a : ℤ} (ha : a < s.sp) : s.keepOption.pkt a = s.pkt a := by
  unfold Scan.keepOption
  simp only
  split
  · exact store_of_lt _ ha _
  · rfl

theorem Behind.keepOption (h : Behind base pkt s) : Behind base pkt s.keepOption where
  front := by
    intro a ha
    have hsp := h.sp
    rw [keepOption_front (by omega), h.front a ha]
  sp := by
    have hsp := h.sp
    unfold Scan.keepOption
    simp only
    omega
  endPad := fun e he => nomatch he

/-- A round leaves the front alone; a request keeps its interface information. -/
theorem Behind.step (h : Behind base pkt s) (hop : dhcp + opOff < base)
    (hstep : optionStep cfg host ifName dhcp max s = .next s') :
    Behind base pkt s' ∧ (pkt (dhcp + opOff) = bootrequest → s'.pktInfo = s.pktInfo) := by
  have hsp := h.sp
  have hfront := h.front
  cases optionStep_cases hstep with
  | inl hpad =>
    subst hpad
    refine ⟨⟨?_, ?_, ?_⟩, fun _ => rfl⟩
    · intro a ha
      show store s.pkt s.sp _ a = pkt a
      rw [store_of_lt _ (by omega), hfront a ha]
    · simp only
      omega
    · intro e he
      rw [← Option.some.inj he]
      exact hsp
  | inr hcases =>
  cases hcases with
  | inl hend =>
    subst hend
    refine ⟨⟨?_, ?_, h.endPad⟩, fun _ => rfl⟩
    · intro a ha
      simp only
      split
      · rw [store_of_lt _ (by omega), hfront a ha]
      · exact hfront a ha
    · simp only
      omega
  | inr hcases =>
  cases hcases with
  | inl hkeep =>
    -- the pad pointer of the scan that is kept does not matter: it is reset
    obtain ⟨endPad, isDhcp, maxMsgSize, rfl, -⟩ := hkeep
    have hbehind : Behind base pkt { s with endPad := none, isDhcp, maxMsgSize } :=
      ⟨hfront, hsp, fun e he => nomatch he⟩
    exact ⟨⟨hbehind.keepOption.front, hbehind.keepOption.sp, hbehind.keepOption.endPad⟩,
      fun _ => rfl⟩
  | inr hskip =>
    obtain ⟨pktInfo, good, rfl, hinfo, -⟩ := hskip
    refine ⟨⟨hfront, hsp, fun e he => nomatch he⟩, ?_⟩
    intro hreq
    exact (hinfo (by rw [hfront _ hop, hreq])).1

/-- The whole loop leaves the front alone. -/
theorem Behind.loop (h : Behind base pkt s) (hop : dhcp + opOff < base)
    {rounds : ℕ} (hloop : optionLoop cfg host ifName dhcp max rounds s = .next s') :
    Behind base pkt s' ∧ (pkt (dhcp + opOff) = bootrequest → s'.pktInfo = s.pktInfo) := by
  induction rounds generalizing s with
  | zero =>
    cases hloop
    exact ⟨h, fun _ => rfl⟩
  | succ rounds ih =>
    unfold optionLoop at hloop
    split at hloop
    · split at hloop
      · rename_i s₁ hstep
        obtain ⟨hbehind, hinfo⟩ := h.step hop hstep
        obtain ⟨hlast, hinfo'⟩ := ih hbehind hloop
        exact ⟨hlast, fun hreq => (hinfo' hreq).trans (hinfo hreq)⟩
      · cases hloop
    · cases hloop
      exact ⟨h, fun _ => rfl⟩

/-- So does a loop that returns. -/
theorem Behind.loop_ret (h : Behind base pkt s) (hop : dhcp + opOff < base)
    {rounds : ℕ} {result : Option82Result}
    (hloop : optionLoop cfg host ifName dhcp max rounds s = .ret result s') :
    ∀ a < base, s'.pkt a = pkt a := by
  induction rounds generalizing s with
  | zero => cases hloop
  | succ rounds ih =>
    unfold optionLoop at hloop
    split at hloop
    · split at hloop
      · rename_i s₁ hstep
        exact ih (h.step hop hstep).1 hloop
      · rename_i hstep
        obtain ⟨rfl, rfl⟩ := ScanStep.ret.inj hloop
        rw [(optionStep_ret hstep).2]
        exact h.front
    · cases hloop

/-- The new option would go behind the fixed part too. -/
theorem Behind.appendPtr (h : Behind base pkt s) : base ≤ s.appendPtr := by
  unfold Scan.appendPtr
  cases hpad : s.endPad with
  | none => exact h.sp
  | some e => exact h.endPad e hpad

theorem start_behind (pkt : Packet) (pktInfo : Option82Options) :
    Behind (Udpfwd.dhcp pkt + optionsStart) pkt (Scan.start pkt pktInfo) :=
  ⟨fun _ _ => rfl, Int.le_refl _, fun _ he => nomatch he⟩

end behind

end Udpfwd
end IpApps
