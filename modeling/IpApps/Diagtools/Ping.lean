import IpApps.Diagtools.CommandLine

/-!
# `ping` and `ping6`

`decodeParam` of `ping_vty.c`, which checks one argument and stores it, and `ping_main`, which
makes the command line. An IPv6 address is written into an object of four bytes, which has no
meaning in C.
-/

namespace IpApps
namespace Diagtools

open ShellWords Snprintf

/-! ## Checking the arguments -/

def pingMaxHostnameLength : ℕ := 256
def maxPatternLength : ℕ := 32

/-- `pingArguments`. -/
inductive PingArguments
  | ipv4Destination
  | ipv6Destination
  | dataFill
  | dataSize
  | repetitions
  | interval
  | timeout
  | typeOfService
  | pingIpOption
  | vrfName
  | mgmt
  deriving DecidableEq, Repr

/-- `pingEntry`. -/
structure PingEntry where
  isIpv4 : Bool
  isBcast : Bool
  pingTarget : Option CString
  pingDataFill : Option CString
  pingDataSize : UInt16
  pingTimeout : UInt8
  pingInterval : UInt8
  pingRepetitions : UInt16
  pingTos : UInt8
  includeTimestamp : Bool
  includeTimestampAddress : Bool
  recordRoute : Bool
  vrfN : CString
  mgmt : Bool
  deriving DecidableEq, Repr

/-- An entry of zeros. -/
def PingEntry.zero : PingEntry :=
  ⟨false, false, none, none, 0, 0, 0, 0, 0, false, false, false, [], false⟩

section decode

variable (sw : Switch)

-- `VTY_NEWLINE`
variable (newline : CString)

/-- The message for a hostname that is too long. -/
def hostnameMessage : CString :=
  "Invalid Hostname. Length should be less than ".toList ++ decimal pingMaxHostnameLength
    ++ " characters. ".toList ++ newline

/-- `decodeParam` for a data-fill. -/
def decodeDataFill (value : CString) (p : PingEntry) : Except Undefined (Decoded PingEntry) :=
  if intMax < (value.takeWhile isXdigit).length then .error .intOverflow
  else if !value.all isXdigit then
    .ok (.refuse p ("Datafill pattern should be in hexadecimal only. ".toList ++ newline))
  else
    let out :=
      if maxPatternLength < value.length then
        "Only first ".toList ++ decimal maxPatternLength
          ++ " characters will be used for data-fill. ".toList ++ newline
      else []
    .ok ⟨.success, { p with pingDataFill := some value }, out⟩

/-- `decodeParam` for an IP option. -/
def decodeIpOption (value : CString) (p : PingEntry) : PingEntry :=
  if value = "include-timestamp".toList then { p with includeTimestamp := true }
  else if value = "include-timestamp-and-address".toList then
    { p with includeTimestampAddress := true }
  else if value = "record-route".toList then { p with recordRoute := true }
  else p

/-- `decodeParam`. -/
def decodeParam (value : Option CString) (type : PingArguments) (p : PingEntry) :
    Except Undefined (Decoded PingEntry) :=
  match type, value with
  | .ipv4Destination, value =>
    decodeDestination pingMaxHostnameLength (hostnameMessage newline)
      ("Invalid IPv4 address. ".toList ++ newline)
      (fun value => { p with isIpv4 := true, pingTarget := some value })
      (fun value => .ok ((Libc.inetPton value).map fun addr =>
        let host := Libc.htonl addr.toNat
        let isBcast := sw.isBroadcastIpv4 host || sw.isSubnetBroadcast host
        { p with isBcast := isBcast, isIpv4 := true, pingTarget := some value }))
      p value
  | .ipv6Destination, value =>
    decodeDestination pingMaxHostnameLength (hostnameMessage newline)
      ("Invalid IPv6 address. ".toList ++ newline)
      (fun value => { p with pingTarget := some value })
      (fun value => do
        if ← inetPton6Into sizeofInAddr value then return some { p with pingTarget := some value }
        else return none)
      p value
  | _, none => .ok (.accept p)
  | .dataSize, some value =>
    .ok (.accept { p with pingDataSize := (Libc.atoi value).toUInt32.toUInt16 })
  | .dataFill, some value => decodeDataFill newline value p
  | .repetitions, some value =>
    .ok (.accept { p with pingRepetitions := (Libc.atoi value).toUInt32.toUInt16 })
  | .interval, some value =>
    .ok (.accept { p with pingInterval := (Libc.atoi value).toUInt32.toUInt8 })
  | .timeout, some value =>
    .ok (.accept { p with pingTimeout := (Libc.atoi value).toUInt32.toUInt8 })
  | .typeOfService, some value =>
    .ok (.accept { p with pingTos := (Libc.atoi value).toUInt32.toUInt8 })
  | .pingIpOption, some value => .ok (.accept (decodeIpOption value p))
  | .vrfName, some value =>
    match sw.getVrfNsFromName value with
    | none => .ok (.refuse p "ping: vrf does not exist\n".toList)
    | some ns => .ok (.accept { p with vrfN := ns })
  | .mgmt, some _ => .ok (.accept { p with mgmt := true })

end decode

/-- An argument whose check has a meaning. -/
def PingArguments.Defined : PingArguments → Option CString → Prop
  | .ipv4Destination, value => value.isSome
  | .ipv6Destination, value => Ipv6DestinationDefined value
  | .dataFill, value => ∀ word ∈ value, (word.takeWhile isXdigit).length ≤ intMax
  | _, _ => True

theorem decodeDataFill_ok_iff {newline value : CString} {p : PingEntry} :
    (∃ d, decodeDataFill newline value p = .ok d) ↔ (value.takeWhile isXdigit).length ≤ intMax := by
  rw [decodeDataFill]
  split
  · rename_i hlong
    refine ⟨fun h => ?_, fun h => absurd hlong (by omega)⟩
    obtain ⟨d, hd⟩ := h
    cases hd
  · rename_i hshort
    refine ⟨fun _ => Nat.le_of_not_lt hshort, fun _ => ?_⟩
    split <;> exact ⟨_, rfl⟩

theorem decodeParam_ok_iff {sw : Switch} {newline : CString} (type : PingArguments)
    (value : Option CString) (p : PingEntry) :
    (∃ d, decodeParam sw newline value type p = .ok d) ↔ type.Defined value := by
  cases type with
  | ipv4Destination =>
    rw [decodeParam, decodeDestination_ok_iff, PingArguments.Defined, Option.isSome_iff_exists]
    exact exists_congr fun word => and_iff_left fun _ => ⟨_, rfl⟩
  | ipv6Destination =>
    rw [decodeParam]
    exact decodeIpv6Destination_ok_iff
  | dataFill =>
    cases value with
    | none => exact ⟨fun _ _ hword => absurd hword (by simp), fun _ => ⟨_, rfl⟩⟩
    | some value =>
      rw [decodeParam, decodeDataFill_ok_iff]
      exact ⟨fun h word hword => Option.some.inj hword ▸ h, fun h => h value rfl⟩
  | vrfName =>
    refine ⟨fun _ => trivial, fun _ => ?_⟩
    cases value with
    | none => exact ⟨_, rfl⟩
    | some value =>
      simp only [decodeParam]
      split <;> exact ⟨_, rfl⟩
  | _ => exact ⟨fun _ => trivial, fun _ => by cases value <;> exact ⟨_, rfl⟩⟩

/-! ## The command line -/

def pingDefTimeout : UInt8 := 2
def pingDefCount : UInt16 := 5
def pingDefSize : UInt16 := 100

/-- `PING4_DEF_CMD`. -/
def ping4DefCmd : CString := "ping".toList

/-- `PING6_DEF_CMD`. -/
def ping6DefCmd : CString := "ping6".toList

/-- `ping_main` up to `popen`. -/
def pingMain (fPtr : Bool) (p : Option PingEntry) : Except Undefined Outcome :=
  if !fPtr then .ok (.refused "function pointer passed is null")
  else
    match p with
    | none => .ok (.refused "Pointer to ping structure is null")
    | some p => do
      -- the "swns" namespace or the one specified by the user
      let b ← Buffer.empty.append (exePath ++ [' '])
      let b ← (
        if p.mgmt then b.append ("mgmt".toList ++ [' '])
        else if p.vrfN = [] then b.append (defaultVrfName ++ [' '])
        else b.append (p.vrfN ++ [' ']))
      let b ← (
        if p.isIpv4 then b.append (ping4DefCmd ++ [' ']) else b.append (ping6DefCmd ++ [' ']))
      let b ← b.append " \" ".toList
      let b ← (if p.isBcast then b.append "-b ".toList else pure b)
      let b ← b.appendSome p.pingTarget
      let pingRepetitions := if p.pingRepetitions = 0 then pingDefCount else p.pingRepetitions
      let b ← b.append (" -c ".toList ++ decimal pingRepetitions.toNat)
      let pingDataSize := if p.pingDataSize = 0 then pingDefSize else p.pingDataSize
      let b ← b.append (" -s ".toList ++ decimal pingDataSize.toNat)
      let b ← (
        if p.pingInterval ≠ 0 then b.append (" -i ".toList ++ decimal p.pingInterval.toNat)
        else pure b)
      let b ← b.appendSome (p.pingDataFill.map (" -p ".toList ++ ·))
      let b ← (
        if p.isIpv4 then do
          let pingTimeout := if p.pingTimeout = 0 then pingDefTimeout else p.pingTimeout
          let b ← b.append (" -W ".toList ++ decimal pingTimeout.toNat)
          let b ← (
            if p.pingTos ≠ 0 then b.append (" -Q ".toList ++ decimal p.pingTos.toNat)
            else pure b)
          if p.includeTimestamp then b.append " -T tsonly ".toList
          else if p.includeTimestampAddress then b.append " -T tsandaddr ".toList
          else if p.recordRoute then b.append " -R ".toList
          else pure b
        else pure b)
      let b ← b.append " \" ".toList
      return .popen b

/-! ## The pieces -/

namespace PingEntry

variable (p : PingEntry)

/-- The tool that `nwdiag` runs. -/
def tool : CString := if p.isIpv4 then ping4DefCmd else ping6DefCmd

/-- The IP option, of which the first one counts. -/
def ipOption : List CString :=
  if p.includeTimestamp then [" -T tsonly ".toList]
  else if p.includeTimestampAddress then [" -T tsandaddr ".toList]
  else if p.recordRoute then [" -R ".toList]
  else []

/-- The options of IPv4. -/
def ipv4Options : List CString :=
  [" -W ".toList ++ decimal (if p.pingTimeout = 0 then pingDefTimeout else p.pingTimeout).toNat]
    ++ (if p.pingTos ≠ 0 then [" -Q ".toList ++ decimal p.pingTos.toNat] else [])
    ++ p.ipOption

/-- The options behind the target. -/
def options : List CString :=
  [" -c ".toList ++
      decimal (if p.pingRepetitions = 0 then pingDefCount else p.pingRepetitions).toNat,
    " -s ".toList ++ decimal (if p.pingDataSize = 0 then pingDefSize else p.pingDataSize).toNat]
    ++ (if p.pingInterval ≠ 0 then [" -i ".toList ++ decimal p.pingInterval.toNat] else [])
    ++ (p.pingDataFill.map (" -p ".toList ++ ·)).toList
    ++ (if p.isIpv4 then p.ipv4Options else [])

/-- What `ping_main` appends, call by call. -/
def pieces : List CString :=
  commandPieces (namespaceOf p.mgmt p.vrfN) p.tool (if p.isBcast then ["-b ".toList] else [])
    p.pingTarget p.options

end PingEntry

theorem pingMain_eq (p : PingEntry) :
    pingMain true (some p)
      = Buffer.empty.appendAll p.pieces >>= fun b => .ok (.popen b) := by
  unfold pingMain PingEntry.pieces commandPieces PingEntry.options PingEntry.ipv4Options
    PingEntry.ipOption namespaceOf PingEntry.tool
  simp only [Buffer.appendAll_append, Buffer.appendAll_cons, Buffer.appendAll_ite,
    Buffer.appendAll_toList, Buffer.appendAll_nil, apply_ite (· ++ [' ']),
    apply_ite (Buffer.append _), bind_assoc, bind_pure]
  rfl

namespace PingEntry

variable (p : PingEntry)

/-- The number of characters of the options of IPv4. -/
def ipv4Length : ℕ :=
  numberLength (if p.pingTimeout = 0 then pingDefTimeout else p.pingTimeout).toNat
    + (if p.pingTos ≠ 0 then numberLength p.pingTos.toNat else 0)
    + (if p.includeTimestamp then 11 else if p.includeTimestampAddress then 14
      else if p.recordRoute then 4 else 0)

/-- The number of characters of the options. -/
def optionLength : ℕ :=
  numberLength (if p.pingRepetitions = 0 then pingDefCount else p.pingRepetitions).toNat
    + numberLength (if p.pingDataSize = 0 then pingDefSize else p.pingDataSize).toNat
    + (if p.pingInterval ≠ 0 then numberLength p.pingInterval.toNat else 0)
    + (p.pingDataFill.elim 0 fun dataFill => 4 + dataFill.length)
    + (if p.isIpv4 then p.ipv4Length else 0)

/-- The length of the line: the words and the double quotes, the target, and the options. -/
def lineLength : ℕ :=
  26 + (namespaceOf p.mgmt p.vrfN).length + p.tool.length + (if p.isBcast then 3 else 0)
    + (p.pingTarget.getD []).length + p.optionLength

theorem length_ipv4Options : p.ipv4Options.flatten.length = p.ipv4Length := by
  unfold ipv4Options ipOption ipv4Length
  simp only [List.flatten_append, List.flatten_cons, List.flatten_nil, List.length_append,
    length_flatten_ite, numberLength, List.append_nil]
  rfl

theorem length_options : p.options.flatten.length = p.optionLength := by
  unfold options optionLength
  simp only [List.flatten_append, List.flatten_cons, List.flatten_nil, List.length_append,
    length_flatten_ite, numberLength, List.append_nil, length_ipv4Options]
  cases p.pingDataFill with
  | none => simp
  | some dataFill =>
    simp
    omega

theorem length_pieces : p.pieces.flatten.length = p.lineLength := by
  rw [pieces, length_commandPieces, length_options, length_flatten_ite]
  rfl

/-! ## What the checks leave -/

/-- What the checks say about an entry. -/
structure Checked : Prop where
  target : ∀ target ∈ p.pingTarget, target.length ≤ pingMaxHostnameLength
  dataFill : ∀ dataFill ∈ p.pingDataFill, dataFill.all isXdigit = true
  vrf : IsNamespace p.vrfN

theorem checked_zero : zero.Checked := ⟨nofun, nofun, by decide, rfl⟩

variable {p}

theorem Checked.decodeIpOption {value : CString} (hp : p.Checked) :
    (Diagtools.decodeIpOption value p).Checked := by
  unfold Diagtools.decodeIpOption
  split
  · exact ⟨hp.target, hp.dataFill, hp.vrf⟩
  split
  · exact ⟨hp.target, hp.dataFill, hp.vrf⟩
  split
  · exact ⟨hp.target, hp.dataFill, hp.vrf⟩
  · exact hp

theorem Checked.decodeDataFill {newline value : CString} {d : Decoded PingEntry} (hp : p.Checked)
    (h : Diagtools.decodeDataFill newline value p = .ok d) (hd : d.result = .success) :
    d.entry.Checked := by
  unfold Diagtools.decodeDataFill at h
  split at h
  · exact absurd h nofun
  split at h
  · cases h
    exact absurd hd nofun
  · rename_i hhex
    cases h
    refine ⟨hp.target, ?_, hp.vrf⟩
    rintro dataFill ⟨⟩
    simpa using hhex

/-- Every data-fill of hexadecimal digits is stored as it is. -/
theorem decodeDataFill_of_hex (newline : CString) {value : CString}
    (hlength : value.length ≤ intMax) (hhex : value.all isXdigit = true) (p : PingEntry) :
    ∃ out, Diagtools.decodeDataFill newline value p
      = .ok ⟨.success, { p with pingDataFill := some value }, out⟩ := by
  have htake : (value.takeWhile isXdigit).length ≤ value.length :=
    (List.takeWhile_sublist isXdigit).length_le
  rw [Diagtools.decodeDataFill, if_neg (by omega), hhex]
  exact ⟨_, rfl⟩

/-- An accepted argument keeps what the checks say. -/
theorem Checked.decodeParam {sw : Switch} (hsw : sw.NamesNamespaces) {newline : CString}
    {value : Option CString} {type : PingArguments} {d : Decoded PingEntry} (hp : p.Checked)
    (h : Diagtools.decodeParam sw newline value type p = .ok d) (hd : d.result = .success) :
    d.entry.Checked := by
  have htarget : ∀ {target : CString} {q : PingEntry}, target.length ≤ pingMaxHostnameLength →
      q.pingTarget = some target → q.pingDataFill = p.pingDataFill → q.vrfN = p.vrfN →
      q.Checked := by
    intro target q hlength htarget hfill hvrf
    refine ⟨?_, hfill ▸ hp.dataFill, hvrf ▸ hp.vrf⟩
    rw [htarget]
    rintro _ ⟨⟩
    exact hlength
  cases value with
  | none => cases type <;> cases h <;> exact hp
  | some value =>
    cases type with
    | ipv4Destination =>
      rw [Diagtools.decodeParam] at h
      have ⟨word, hword⟩ := decodeDestination_accepted h hd
      rcases hword with ⟨hlength, hentry⟩ | haddr
      · exact htarget hlength (by rw [hentry]) (by rw [hentry]) (by rw [hentry])
      · obtain ⟨addr, haddr', hentry⟩ := Option.map_eq_some_iff.mp (Except.ok.inj haddr)
        have hlength := (Libc.text_of_inetPton (Option.isSome_of_mem haddr')).1
        rw [← hentry]
        exact htarget (hlength.trans (by decide)) rfl rfl rfl
    | ipv6Destination =>
      rw [Diagtools.decodeParam] at h
      have ⟨word, hword⟩ := decodeDestination_accepted h hd
      rcases hword with ⟨hlength, hentry⟩ | haddr
      · exact htarget hlength (by rw [hentry]) (by rw [hentry]) (by rw [hentry])
      · exact absurd haddr (ipv6Address_ne word _ _)
    | dataFill => exact hp.decodeDataFill h hd
    | pingIpOption =>
      cases h
      exact hp.decodeIpOption
    | vrfName =>
      simp only [Diagtools.decodeParam] at h
      split at h
      · cases h
        exact absurd hd nofun
      · rename_i ns hns
        cases h
        exact ⟨hp.target, hp.dataFill, hsw hns⟩
    | _ =>
      cases h
      exact ⟨hp.target, hp.dataFill, hp.vrf⟩

/-- Accepted arguments lead to checked entries. -/
theorem checked_of_decodeAll {sw : Switch} (hsw : sw.NamesNamespaces) {newline : CString}
    {arguments : List (PingArguments × Option CString)}
    (h : decodeAll (Diagtools.decodeParam sw newline) arguments zero = .ok (some p)) : p.Checked :=
  decodeAll_preserves (fun hp => hp.decodeParam hsw) checked_zero h

/-! ## The data-fill and the rest of the line -/

theorem ite_zero_le (c : Prop) [Decidable c] {a n : ℕ} (h : a ≤ n) : (if c then a else 0) ≤ n := by
  split
  · exact h
  · exact Nat.zero_le n

theorem ipv4Length_le : p.ipv4Length ≤ 30 := by
  have htimeout := numberLength_uint8 (if p.pingTimeout = 0 then pingDefTimeout else p.pingTimeout)
  have htos := ite_zero_le (p.pingTos ≠ 0) (numberLength_uint8 p.pingTos)
  have hoption : (if p.includeTimestamp then 11 else if p.includeTimestampAddress then 14
      else if p.recordRoute then 4 else 0) ≤ 14 := by
    split
    · decide
    split
    · decide
    split <;> decide
  rw [ipv4Length]
  omega

/-- The options are as long as the data-fill, and what else there is has a bound. -/
theorem optionLength_bounds :
    (p.pingDataFill.getD []).length ≤ p.optionLength ∧
      p.optionLength ≤ (p.pingDataFill.getD []).length + 62 := by
  have hcount := numberLength_uint16
    (if p.pingRepetitions = 0 then pingDefCount else p.pingRepetitions)
  have hsize := numberLength_uint16 (if p.pingDataSize = 0 then pingDefSize else p.pingDataSize)
  have hinterval := ite_zero_le (p.pingInterval ≠ 0) (numberLength_uint8 p.pingInterval)
  have hipv4 := ite_zero_le (p.isIpv4 = true) (@ipv4Length_le p)
  have hfill : (p.pingDataFill.getD []).length ≤ p.pingDataFill.elim 0 (4 + ·.length) ∧
      p.pingDataFill.elim 0 (4 + ·.length) ≤ (p.pingDataFill.getD []).length + 4 := by
    cases p.pingDataFill with
    | none => decide
    | some dataFill => exact ⟨Nat.le_add_left _ 4, (Nat.add_comm 4 _).le⟩
  rw [optionLength]
  omega

/-- Only a data-fill can make the line too long. -/
theorem Checked.lineLength_bounds (hp : p.Checked) :
    (p.pingDataFill.getD []).length ≤ p.lineLength ∧
      p.lineLength ≤ (p.pingDataFill.getD []).length + 388 := by
  have hns := length_namespaceOf p.mgmt hp.vrf
  have htool : p.tool.length ≤ 5 := by
    rw [tool]
    split <;> decide
  have htarget : (p.pingTarget.getD []).length ≤ pingMaxHostnameLength := by
    cases h : p.pingTarget with
    | none => exact Nat.zero_le _
    | some target => exact hp.target target h
  have hbcast := ite_zero_le (p.isBcast = true) (Nat.le_refl 3)
  have hoptions := @optionLength_bounds p
  rw [uuidLen] at hns
  rw [pingMaxHostnameLength] at htarget
  rw [lineLength]
  omega

/-! ## One command -/

theorem isLiteral_ipv4Options : p.ipv4Options.flatten.all isLiteral = true := by
  refine isLiteral_append (isLiteral_append ?_ ?_) ?_
  · exact isLiteral_cons (isLiteral_number (by decide) _) rfl
  · split
    · exact isLiteral_cons (isLiteral_number (by decide) _) rfl
    · rfl
  · rw [ipOption]
    split
    · decide
    split
    · decide
    split <;> decide

/-- The options are text only. -/
theorem Checked.isLiteral_options (hp : p.Checked) : p.options.flatten.all isLiteral = true := by
  refine isLiteral_append (isLiteral_append (isLiteral_append ?_ ?_) ?_) ?_
  · refine isLiteral_cons (isLiteral_number (by decide) _) ?_
    exact isLiteral_cons (isLiteral_number (by decide) _) rfl
  · split
    · exact isLiteral_cons (isLiteral_number (by decide) _) rfl
    · rfl
  · cases hfill : p.pingDataFill with
    | none => rfl
    | some dataFill =>
      have hhex := all_isLiteral_of (by decide) (hp.dataFill dataFill hfill)
      refine isLiteral_cons ?_ rfl
      rw [List.all_append, hhex]
      decide
  · split
    · exact isLiteral_ipv4Options
    · rfl

/-- `ping_main` runs one command if and only if the target can stand between double quotes and the
line fits. -/
theorem Checked.runsOneCommand_iff {sh : Shell} (hp : p.Checked) :
    RunsOneCommand sh [exePath, namespaceOf p.mgmt p.vrfN, p.tool] (pingMain true (some p))
      ↔ StaysQuoted sh (p.pingTarget.getD []) ∧ p.lineLength < bufsiz := by
  rw [← length_pieces]
  refine Diagtools.runsOneCommand_iff (pingMain_eq p) (isWord_namespaceOf p.mgmt hp.vrf) ?_ ?_
    hp.isLiteral_options rfl
  · rw [tool]
    split <;> decide
  · split <;> decide

end PingEntry

end Diagtools
end IpApps
