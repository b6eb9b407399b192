import IpApps.InetPton6
import IpApps.Lib.ShellWords
import IpApps.Lib.Snprintf

/-!
# The command lines of the diagnostic tools

What `ping` and `traceroute` have in common: their arguments are checked one by one and stored in
an entry, and the handler makes the line of `popen` from the entry. The line calls `nwdiag` with
three words, the last of which stands between double quotes and has the text of the user in it.
-/

namespace IpApps
namespace Diagtools

open ExceptLoops ShellWords Snprintf

/-! ## Arguments -/

/-- `UUID_LEN`. -/
def uuidLen : ℕ := 36

/-- What the commands use of the rest of the switch: the namespace that `get_vrf_ns_from_name`
writes for a VRF, unless it returns -1, and two macros for addresses in host order. -/
structure Switch where
  getVrfNsFromName : CString → Option CString
  isBroadcastIpv4 : ℕ → Bool
  isSubnetBroadcast : ℕ → Bool

/-- The characters of a UUID and of the names of the namespaces. -/
def isNamespaceChar (c : Char) : Bool := c.isAlphanum || c = '-'

/-- A name that fits in `vrf_n` and is made of the characters of a UUID. -/
def IsNamespace (ns : CString) : Prop := ns.length ≤ uuidLen ∧ ns.all isNamespaceChar = true

/-- `get_vrf_ns_from_name` writes names of namespaces. -/
def Switch.NamesNamespaces (sw : Switch) : Prop :=
  ∀ {name ns}, sw.getVrfNsFromName name = some ns → IsNamespace ns

inductive DecodeResult
  /-- `CMD_SUCCESS`. -/
  | success
  /-- `CMD_WARNING`. -/
  | warning
  deriving DecidableEq, Repr

/-- How the check of an argument ends, with what it prints. -/
structure Decoded (α : Type) where
  result : DecodeResult
  entry : α
  out : CString
  deriving DecidableEq, Repr

def Decoded.accept {α : Type} (entry : α) : Decoded α := ⟨.success, entry, []⟩

def Decoded.refuse {α : Type} (entry : α) (out : CString) : Decoded α := ⟨.warning, entry, out⟩

/-- The entry that arguments lead to, one after the other, if all are accepted. -/
def decodeAll {α ι : Type} (decode : Option CString → ι → α → Except Undefined (Decoded α)) :
    List (ι × Option CString) → α → Except Undefined (Option α)
  | [], p => .ok (some p)
  | (type, value) :: arguments, p => do
    let d ← decode value type p
    match d.result with
    | .success => decodeAll decode arguments d.entry
    | .warning => return none

/-- Arguments that are not refused lead to an entry if and only if the check of each one has a
meaning. -/
theorem decodeAll_ok_iff {α ι : Type}
    {decode : Option CString → ι → α → Except Undefined (Decoded α)}
    {Defined : ι → Option CString → Prop}
    (hdefined : ∀ type value p, (∃ d, decode value type p = .ok d) ↔ Defined type value)
    {arguments : List (ι × Option CString)} {p : α} (h : decodeAll decode arguments p ≠ .ok none) :
    (∃ q, decodeAll decode arguments p = .ok (some q))
      ↔ ∀ argument ∈ arguments, Defined argument.1 argument.2 := by
  induction arguments generalizing p with
  | nil => exact ⟨fun _ _ hmem => absurd hmem List.not_mem_nil, fun _ => ⟨p, rfl⟩⟩
  | cons argument arguments ih =>
    obtain ⟨type, value⟩ := argument
    rw [List.forall_mem_cons, ← hdefined type value p]
    rw [decodeAll] at h ⊢
    cases hd : decode value type p with
    | error e =>
      refine ⟨fun hok => ?_, fun hok => ?_⟩
      · obtain ⟨q, hq⟩ := hok
        cases hq
      · obtain ⟨⟨d, hok⟩, _⟩ := hok
        cases hok
    | ok d =>
      rw [hd, ok_bind] at h
      cases hresult : d.result with
      | success =>
        rw [hresult] at h
        simp only [ok_bind, hresult]
        -- an argument that is accepted hands on to the next one
        rw [ih h]
        exact (and_iff_right ⟨d, rfl⟩).symm
      | warning =>
        rw [hresult] at h
        exact absurd rfl h

theorem decodeAll_cons {α ι : Type} {decode : Option CString → ι → α → Except Undefined (Decoded α)}
    {type : ι} {value : Option CString} {p : α} {d : Decoded α} (h : decode value type p = .ok d)
    (hd : d.result = .success) (arguments : List (ι × Option CString)) :
    decodeAll decode ((type, value) :: arguments) p = decodeAll decode arguments d.entry := by
  rw [decodeAll, h, ok_bind, hd]

/-- What accepted arguments keep holds of the entry that they lead to. -/
theorem decodeAll_preserves {α ι : Type} {P : α → Prop}
    {decode : Option CString → ι → α → Except Undefined (Decoded α)}
    (hstep : ∀ {p value type d}, P p → decode value type p = .ok d → d.result = .success →
      P d.entry)
    {arguments : List (ι × Option CString)} {p q : α} (hp : P p)
    (h : decodeAll decode arguments p = .ok (some q)) : P q := by
  induction arguments generalizing p with
  | nil =>
    cases h
    exact hp
  | cons argument arguments ih =>
    have ⟨d, hd, hrest⟩ := bind_eq_ok h
    cases hresult : d.result with
    | success =>
      rw [hresult] at hrest
      exact ih (hstep hp hd hresult) hrest
    | warning =>
      rw [hresult] at hrest
      exact absurd hrest nofun

/-- Whether a word is taken for a hostname. -/
def isHostname (value : CString) : Bool := value.head?.any Char.isAlpha

/-- `sizeof (struct in_addr)`. -/
def sizeofInAddr : ℕ := 4

/-- `inet_pton(AF_INET6, src, dst)` returns 1, where `dst` is an object of `size` bytes: an address
is written as sixteen bytes. -/
def inetPton6Into (size : ℕ) (src : CString) : Except Undefined Bool :=
  if Libc.inetPton6 src then if size < 16 then .error .outOfBounds else .ok true else .ok false

/-- The check of a destination: a word that starts like a hostname is stored by `hostname` if it is
not too long, another one by `address` if it is an address. -/
def decodeDestination {α : Type} (maxLength : ℕ) (tooLong invalid : CString)
    (hostname : CString → α) (address : CString → Except Undefined (Option α)) (p : α) :
    Option CString → Except Undefined (Decoded α)
  | none => .error .nullPointer
  | some value =>
    if isHostname value then
      if maxLength < value.length then .ok (.refuse p tooLong) else .ok (.accept (hostname value))
    else do
      match ← address value with
      | none => return .refuse p invalid
      | some entry => return .accept entry

theorem decodeDestination_accepted {α : Type} {maxLength : ℕ} {tooLong invalid : CString}
    {hostname : CString → α} {address : CString → Except Undefined (Option α)} {p : α}
    {value : Option CString} {d : Decoded α}
    (h : decodeDestination maxLength tooLong invalid hostname address p value = .ok d)
    (hd : d.result = .success) :
    ∃ word, (word.length ≤ maxLength ∧ d.entry = hostname word) ∨
      address word = .ok (some d.entry) := by
  cases value with
  | none => exact absurd h nofun
  | some word =>
    refine ⟨word, ?_⟩
    rw [decodeDestination] at h
    -- a word with a letter in front is a hostname, any other one has to be an address
    split at h
    · split at h
      · cases h
        exact absurd hd nofun
      · rename_i hlength
        cases h
        exact .inl ⟨Nat.le_of_not_lt hlength, rfl⟩
    · obtain ⟨found, hfound, hrest⟩ := bind_eq_ok h
      cases found with
      | none =>
        cases hrest
        cases hd
      | some entry =>
        cases hrest
        exact .inr hfound

/-- The check of a destination has a meaning if and only if there is a word and the check of an
address has one. -/
theorem decodeDestination_ok_iff {α : Type} {maxLength : ℕ} {tooLong invalid : CString}
    {hostname : CString → α} {address : CString → Except Undefined (Option α)} {p : α}
    {value : Option CString} :
    (∃ d, decodeDestination maxLength tooLong invalid hostname address p value = .ok d)
      ↔ ∃ word, value = some word ∧
        (isHostname word = false → ∃ found, address word = .ok found) := by
  cases value with
  | none =>
    refine ⟨fun h => ?_, fun h => ?_⟩
    · obtain ⟨d, hd⟩ := h
      cases hd
    · obtain ⟨word, hword, _⟩ := h
      cases hword
  | some word =>
    rw [decodeDestination]
    cases hname : isHostname word with
    | true =>
      refine ⟨fun _ => ⟨word, rfl, fun h => absurd h (by simp [hname])⟩, fun _ => ?_⟩
      rw [if_pos rfl]
      split <;> exact ⟨_, rfl⟩
    | false =>
      rw [if_neg Bool.false_ne_true]
      constructor
      · rintro ⟨d, hd⟩
        obtain ⟨found, hfound, _⟩ := bind_eq_ok hd
        exact ⟨word, rfl, fun _ => ⟨found, hfound⟩⟩
      · rintro ⟨_, ⟨⟩, hfound⟩
        obtain ⟨found, hfound⟩ := hfound hname
        rw [hfound]
        cases found <;> exact ⟨_, rfl⟩

/-- No IPv6 address is stored. -/
theorem ipv6Address_ne {α : Type} (word : CString) (address entry : α) :
    (do if ← inetPton6Into sizeofInAddr word then return some address else return none)
      ≠ (.ok (some entry) : Except Undefined (Option α)) := by
  rw [inetPton6Into]
  cases Libc.inetPton6 word <;> intro h <;> cases h

/-- A destination of the IPv6 commands whose check has a meaning: a hostname, or no address. -/
def Ipv6DestinationDefined (value : Option CString) : Prop :=
  ∃ word, value = some word ∧ (isHostname word = false → Libc.inetPton6 word = false)

theorem decodeIpv6Destination_ok_iff {α : Type} {maxLength : ℕ} {tooLong invalid : CString}
    {hostname address : CString → α} {p : α} {value : Option CString} :
    (∃ d, decodeDestination maxLength tooLong invalid hostname
        (fun value => do
          if ← inetPton6Into sizeofInAddr value then return some (address value) else return none)
        p value = .ok d)
      ↔ Ipv6DestinationDefined value := by
  rw [decodeDestination_ok_iff, Ipv6DestinationDefined]
  refine exists_congr fun word => and_congr_right fun _ => imp_congr_right fun _ => ?_
  rw [inetPton6Into]
  cases Libc.inetPton6 word with
  | true =>
    refine ⟨fun h => ?_, fun h => absurd h (by decide)⟩
    obtain ⟨found, hfound⟩ := h
    cases hfound
  | false => exact ⟨fun _ => rfl, fun _ => ⟨_, rfl⟩⟩

/-- `isxdigit`. -/
def isXdigit (c : Char) : Bool := (Libc.digitValue c).isSome

/-! ## The line -/

/-- `BUFSIZ`. -/
def bufsiz : ℕ := 8192

/-- `EXE_PATH`. -/
def exePath : CString := "/usr/bin/./nwdiag".toList

/-- `DEFAULT_VRF_NAME`. -/
def defaultVrfName : CString := "swns".toList

/-- `%d`. -/
def decimal (n : ℤ) : CString :=
  if n < 0 then '-' :: Nat.toDigits 10 n.natAbs else Nat.toDigits 10 n.natAbs

/-- What a handler comes to: an error without a command, or the array that `popen` gets. -/
inductive Outcome
  | refused (message : String)
  | popen (buffer : Buffer bufsiz)
  deriving DecidableEq, Repr

/-- The handler runs one command of the given words and one more, the parameter string: the line
is in the array as a whole, and the shell reads these words from it. -/
def RunsOneCommand (sh : Shell) (words : List CString) (run : Except Undefined Outcome) : Prop :=
  ∃ buffer param, run = .ok (.popen buffer) ∧ buffer.len < bufsiz ∧
    buffer.text = quotedCommand words param ∧
    readWords sh 0 [] buffer.text = some (words.map (·.map .plain) ++ [[.quoted param]])

/-- The namespace that the command is run in. -/
def namespaceOf (mgmt : Bool) (vrfN : CString) : CString :=
  if mgmt then "mgmt".toList else if vrfN = [] then defaultVrfName else vrfN

/-- What the handlers append, call by call: the words in front of the parameter, and the parameter
between double quotes, with the target behind `front`. -/
def commandPieces (ns tool : CString) (front : List CString) (target : Option CString)
    (options : List CString) : List CString :=
  [exePath ++ [' '], ns ++ [' '], tool ++ [' '], " \" ".toList]
    ++ front ++ target.toList ++ options ++ [" \" ".toList]

theorem length_commandPieces (ns tool : CString) (front : List CString) (target : Option CString)
    (options : List CString) :
    (commandPieces ns tool front target options).flatten.length
      = 26 + ns.length + tool.length + front.flatten.length + (target.getD []).length
        + options.flatten.length := by
  have hexe : exePath.length = 17 := rfl
  cases target <;> simp [commandPieces, hexe] <;> omega

theorem flatten_commandPieces {ns tool : CString} {front : List CString} {target : Option CString}
    {options : List CString} {after : CString} (hoptions : options.flatten = ' ' :: after) :
    (commandPieces ns tool front target options).flatten
      = quotedCommand [exePath, ns, tool]
          ((' ' :: front.flatten) ++ (target.getD [] ++ ' ' :: (after ++ [' ']))) := by
  have hafter : ' ' :: (after ++ [' ']) = options.flatten ++ [' '] := by rw [hoptions]; rfl
  rw [hafter, commandPieces, quotedCommand]
  cases target <;> simp

/-- The length of pieces that there are under a condition. -/
theorem length_flatten_ite (c : Prop) [Decidable c] (xs ys : List CString) :
    (if c then xs else ys).flatten.length = if c then xs.flatten.length else ys.flatten.length :=
  apply_ite (fun pieces : List CString => pieces.flatten.length) c xs ys

/-- The number of characters of an option with a number. -/
def numberLength (n : ℤ) : ℕ := 4 + (decimal n).length

theorem numberLength_le {n : ℤ} {k : ℕ} (h : n.natAbs < 10 ^ k) (hk : 0 < k) :
    numberLength n ≤ 5 + k := by
  have hlength := (Nat.length_toDigits_le_iff (by omega : 1 < 10) hk).mpr h
  rw [numberLength, decimal]
  split
  · rw [List.length_cons]
    omega
  · omega

theorem numberLength_uint8 (n : UInt8) : numberLength n.toNat ≤ 8 :=
  @numberLength_le n.toNat 3 (by have := n.toNat_lt; omega) (by decide)

theorem numberLength_uint16 (n : UInt16) : numberLength n.toNat ≤ 10 :=
  @numberLength_le n.toNat 5 (by have := n.toNat_lt; omega) (by decide)

theorem numberLength_int32 (n : Int32) : numberLength n.toInt ≤ 15 :=
  @numberLength_le n.toInt 10 (by have := n.toInt_lt; have := n.le_toInt; omega) (by decide)

/-! ## Text that is only text -/

theorem all_isLiteral_of {p : Char → Bool} (hp : notLiteral.all (!p ·) = true) {s : CString}
    (h : s.all p = true) : s.all isLiteral = true := by
  rw [List.all_eq_true] at h ⊢
  exact fun c hc => isLiteral_of hp (h c hc)

theorem isLiteral_decimal (n : ℤ) : (decimal n).all isLiteral = true := by
  have hdigits := all_isLiteral_of (by decide) (Libc.isDotted_toDigits n.natAbs)
  rw [decimal]
  split
  · rw [List.all_cons, hdigits]
    rfl
  · exact hdigits

/-- An option with a number. -/
theorem isLiteral_number {flag : CString} (h : flag.all isLiteral = true) (n : ℤ) :
    (flag ++ decimal n).all isLiteral = true := by
  rw [List.all_append, h, isLiteral_decimal]
  rfl

theorem isLiteral_append {pieces pieces' : List CString} (h : pieces.flatten.all isLiteral = true)
    (h' : pieces'.flatten.all isLiteral = true) :
    (pieces ++ pieces').flatten.all isLiteral = true := by
  rw [List.flatten_append, List.all_append, h, h']
  rfl

theorem isLiteral_cons {piece : CString} {pieces : List CString} (h : piece.all isLiteral = true)
    (h' : pieces.flatten.all isLiteral = true) :
    (piece :: pieces).flatten.all isLiteral = true := by
  rw [List.flatten_cons, List.all_append, h, h']
  rfl

/-- The namespace is a word of its own. -/
theorem isWord_namespaceOf {vrfN : CString} (mgmt : Bool) (h : IsNamespace vrfN) :
    namespaceOf mgmt vrfN ≠ [] ∧ (namespaceOf mgmt vrfN).all isWordChar = true := by
  rw [namespaceOf]
  split
  · decide
  split
  · decide
  · rename_i hne
    refine ⟨hne, List.all_eq_true.mpr fun c hc => ?_⟩
    exact isWordChar_of (by decide) (List.all_eq_true.mp h.2 c hc)

theorem length_namespaceOf {vrfN : CString} (mgmt : Bool) (h : IsNamespace vrfN) :
    (namespaceOf mgmt vrfN).length ≤ uuidLen := by
  rw [namespaceOf]
  split
  · decide
  split
  · decide
  · exact h.1

/-! ## One command -/

/-- The line is read as one command if and only if it fits and the target can stand between double
quotes. -/
theorem runsOneCommand_iff {sh : Shell} {ns tool : CString} {front : List CString}
    {target : Option CString} {options : List CString} {run : Except Undefined Outcome}
    (hrun : run = Buffer.empty.appendAll (commandPieces ns tool front target options)
      >>= fun b => .ok (.popen b))
    (hns : ns ≠ [] ∧ ns.all isWordChar = true) (htool : tool ≠ [] ∧ tool.all isWordChar = true)
    (hfront : front.flatten.all isLiteral = true) (hoptions : options.flatten.all isLiteral = true)
    (hblank : options.flatten.head? = some ' ') :
    RunsOneCommand sh [exePath, ns, tool] run
      ↔ StaysQuoted sh (target.getD []) ∧
        (commandPieces ns tool front target options).flatten.length < bufsiz := by
  have ⟨after, hafter⟩ := List.head?_eq_some_iff.mp hblank
  have hwords : ∀ w ∈ [exePath, ns, tool], w ≠ [] ∧ w.all isWordChar = true := by
    intro w hw
    simp only [List.mem_cons, List.not_mem_nil, or_false] at hw
    rcases hw with rfl | rfl | rfl
    · decide
    · exact hns
    · exact htool
  -- the options end the parameter with characters that mean nothing inside quotes
  have hliteral : (' ' :: (after ++ [' '])).all isLiteral = true := by
    rw [← List.cons_append, ← hafter, List.all_append, hoptions]
    decide
  have hread := @readWords_quotedCommand sh _ (' ' :: front.flatten) (target.getD []) _ hwords
    (by rw [List.all_cons, hfront]; decide) hliteral
  have hflatten := @flatten_commandPieces ns tool front target options after hafter
  generalize (' ' :: front.flatten) ++ (target.getD [] ++ ' ' :: (after ++ [' '])) = param
    at hread hflatten
  generalize commandPieces ns tool front target options = pieces at hrun hflatten ⊢
  have hfits := @Buffer.appendAll_fits_iff bufsiz (by decide) pieces fun line =>
    ∃ param, line = quotedCommand [exePath, ns, tool] param ∧
      readWords sh 0 [] line = some ([exePath, ns, tool].map (·.map .plain) ++ [[.quoted param]])
  rw [← hread, ← hflatten, and_comm]
  constructor
  · rintro ⟨buffer, param', hok, hlen, htext, hwords'⟩
    have ⟨b, hb, hbuffer⟩ := bind_eq_ok (hrun.symm.trans hok)
    cases hbuffer
    have ⟨hshort, param'', htext', hwords''⟩ := hfits.mp ⟨buffer, hb, hlen, param', htext, hwords'⟩
    have hparam : param'' = param := quotedCommand_inj (htext'.symm.trans hflatten)
    exact ⟨hshort, hparam ▸ hwords''⟩
  · rintro ⟨hshort, hwords'⟩
    have ⟨buffer, hb, hlen, param', htext, hwords''⟩ := hfits.mpr ⟨hshort, param, hflatten, hwords'⟩
    exact ⟨buffer, param', by rw [hrun, hb]; rfl, hlen, htext, hwords''⟩

end Diagtools
end IpApps
