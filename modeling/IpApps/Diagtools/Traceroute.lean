import IpApps.Diagtools.CommandLine

/-!
# `traceroute` and `traceroute6`

`decodeTracerouteParam` of `traceroute_vty.c`, which checks one argument and stores it, and
`traceroute_handler`, which makes the command line. Its options are numbers and one IPv4 address,
so the line always fits.
-/

namespace IpApps
namespace Diagtools

open ShellWords Snprintf

/-! ## Checking the arguments -/

def tracerouteMaxHostnameLength : ℕ := 256

/-- `arguments`. -/
inductive TracerouteArguments
  | destination
  | ipOption
  | dstPort
  | maxTtl
  | minTtl
  | probes
  | timeOut
  | ipv6Destination
  | tracerouteVrfName
  | tracerouteMgmt
  deriving DecidableEq, Repr

/-- `tracerouteEntry`. -/
structure TracerouteEntry where
  isIpv4 : Bool
  tracerouteTarget : Option CString
  tracerouteDstport : UInt16
  tracerouteTimeout : UInt8
  tracerouteMaxttl : UInt8
  tracerouteMinttl : UInt8
  tracerouteProbes : UInt32
  tracerouteLoosesourceIp : Option CString
  vrfN : CString
  mgmt : Bool
  deriving DecidableEq, Repr

/-- An entry of zeros. -/
def TracerouteEntry.zero : TracerouteEntry := ⟨false, none, 0, 0, 0, 0, 0, none, [], false⟩

section decode

variable (sw : Switch)

-- `VTY_NEWLINE`
variable (newline : CString)

/-- The message for a hostname that is too long. -/
def tracerouteHostnameMessage : CString :=
  "Invalid hostname.Length must be less than ".toList ++ decimal tracerouteMaxHostnameLength
    ++ " characters. ".toList ++ newline

/-- `decodeTracerouteParam`. -/
def decodeTracerouteParam (value : Option CString) (type : TracerouteArguments)
    (p : TracerouteEntry) : Except Undefined (Decoded TracerouteEntry) :=
  match type, value with
  | .destination, value =>
    -- also where the argument is refused
    let p := { p with isIpv4 := true }
    decodeDestination tracerouteMaxHostnameLength (tracerouteHostnameMessage newline)
      ("Invalid IPv4 address. ".toList ++ newline)
      (fun value => { p with tracerouteTarget := some value })
      (fun value => .ok
        (if (Libc.inetPton value).isSome then some { p with tracerouteTarget := some value }
        else none))
      p value
  | .ipv6Destination, value =>
    decodeDestination tracerouteMaxHostnameLength (tracerouteHostnameMessage newline)
      ("Invalid IPv6 address. ".toList ++ newline)
      (fun value => { p with tracerouteTarget := some value })
      (fun value => do
        if ← inetPton6Into sizeofInAddr value then
          return some { p with tracerouteTarget := some value }
        else return none)
      p value
  | _, none => .ok (.accept p)
  | .ipOption, some value =>
    if (Libc.inetPton value).isNone then
      .ok (.refuse p ("Invalid looseroute IP address. ".toList ++ newline))
    else .ok (.accept { p with tracerouteLoosesourceIp := some value })
  | .dstPort, some value =>
    .ok (.accept { p with tracerouteDstport := (Libc.atoi value).toUInt32.toUInt16 })
  | .maxTtl, some value =>
    .ok (.accept { p with tracerouteMaxttl := (Libc.atoi value).toUInt32.toUInt8 })
  | .minTtl, some value =>
    .ok (.accept { p with tracerouteMinttl := (Libc.atoi value).toUInt32.toUInt8 })
  | .probes, some value =>
    .ok (.accept { p with tracerouteProbes := (Libc.atoi value).toUInt32 })
  | .timeOut, some value =>
    .ok (.accept { p with tracerouteTimeout := (Libc.atoi value).toUInt32.toUInt8 })
  | .tracerouteVrfName, some value =>
    match sw.getVrfNsFromName value with
    | none => .ok (.refuse p "traceroute: vrf does not exist\n".toList)
    | some ns => .ok (.accept { p with vrfN := ns })
  | .tracerouteMgmt, some _ => .ok (.accept { p with mgmt := true })

end decode

/-- An argument whose check has a meaning. -/
def TracerouteArguments.Defined : TracerouteArguments → Option CString → Prop
  | .destination, value => value.isSome
  | .ipv6Destination, value => Ipv6DestinationDefined value
  | _, _ => True

theorem decodeTracerouteParam_ok_iff {sw : Switch} {newline : CString} (type : TracerouteArguments)
    (value : Option CString) (p : TracerouteEntry) :
    (∃ d, decodeTracerouteParam sw newline value type p = .ok d) ↔ type.Defined value := by
  cases type with
  | destination =>
    rw [decodeTracerouteParam, decodeDestination_ok_iff, TracerouteArguments.Defined,
      Option.isSome_iff_exists]
    exact exists_congr fun word => and_iff_left fun _ => ⟨_, rfl⟩
  | ipv6Destination =>
    rw [decodeTracerouteParam]
    exact decodeIpv6Destination_ok_iff
  | ipOption | tracerouteVrfName =>
    refine ⟨fun _ => trivial, fun _ => ?_⟩
    cases value with
    | none => exact ⟨_, rfl⟩
    | some value =>
      simp only [decodeTracerouteParam]
      split <;> exact ⟨_, rfl⟩
  | _ => exact ⟨fun _ => trivial, fun _ => by cases value <;> exact ⟨_, rfl⟩⟩

/-! ## The command line -/

def traceDefPort : UInt16 := 33434
def traceDefProbes : UInt32 := 3
def traceDefMinttl : UInt8 := 1
def traceDefMaxttl : UInt8 := 30
def traceDefWait : UInt8 := 3

/-- `TRACEROUTE4_DEF_CMD`. -/
def traceroute4DefCmd : CString := "traceroute".toList

/-- `TRACEROUTE6_DEF_CMD`. -/
def traceroute6DefCmd : CString := "traceroute6".toList

/-- `traceroute_handler` up to `popen`. -/
def tracerouteHandler (fPtr : Bool) (p : Option TracerouteEntry) : Except Undefined Outcome :=
  if !fPtr then .ok (.refused "function pointer passed is null")
  else
    match p with
    | none => .ok (.refused "Pointer to traceroute structure is null")
    | some p => do
      let b ← Buffer.empty.append (exePath ++ [' '])
      let b ← (
        if p.mgmt then b.append ("mgmt".toList ++ [' '])
        else if p.vrfN = [] then b.append (defaultVrfName ++ [' '])
        else b.append (p.vrfN ++ [' ']))
      let b ← (
        if p.isIpv4 then b.append (traceroute4DefCmd ++ [' '])
        else b.append (traceroute6DefCmd ++ [' ']))
      let b ← b.append " \" ".toList
      let b ← b.appendSome p.tracerouteTarget
      let tracerouteDstport := if p.tracerouteDstport = 0 then traceDefPort else p.tracerouteDstport
      let b ← b.append (" -p ".toList ++ decimal tracerouteDstport.toNat)
      let tracerouteMaxttl := if p.tracerouteMaxttl = 0 then traceDefMaxttl else p.tracerouteMaxttl
      let b ← b.append (" -m ".toList ++ decimal tracerouteMaxttl.toNat)
      -- an `unsigned` that is printed as an `int`
      let tracerouteProbes := if p.tracerouteProbes = 0 then traceDefProbes else p.tracerouteProbes
      let b ← b.append (" -q ".toList ++ decimal tracerouteProbes.toInt32.toInt)
      let tracerouteTimeout := if p.tracerouteTimeout = 0 then traceDefWait else p.tracerouteTimeout
      let b ← b.append (" -w ".toList ++ decimal tracerouteTimeout.toNat)
      let b ← (
        if p.isIpv4 then do
          let tracerouteMinttl :=
            if p.tracerouteMinttl = 0 then traceDefMinttl else p.tracerouteMinttl
          let b ← b.append (" -f ".toList ++ decimal tracerouteMinttl.toNat)
          b.appendSome (p.tracerouteLoosesourceIp.map (" -g ".toList ++ ·))
        else pure b)
      let b ← b.append " \" ".toList
      return .popen b

/-! ## The pieces -/

namespace TracerouteEntry

variable (p : TracerouteEntry)

/-- The tool that `nwdiag` runs. -/
def tool : CString := if p.isIpv4 then traceroute4DefCmd else traceroute6DefCmd

/-- The options of IPv4. -/
def ipv4Options : List CString :=
  (" -f ".toList ++
      decimal (if p.tracerouteMinttl = 0 then traceDefMinttl else p.tracerouteMinttl).toNat)
    :: (p.tracerouteLoosesourceIp.map (" -g ".toList ++ ·)).toList

/-- The options behind the target. -/
def options : List CString :=
  [" -p ".toList ++
      decimal (if p.tracerouteDstport = 0 then traceDefPort else p.tracerouteDstport).toNat,
    " -m ".toList ++
      decimal (if p.tracerouteMaxttl = 0 then traceDefMaxttl else p.tracerouteMaxttl).toNat,
    " -q ".toList ++
      decimal (if p.tracerouteProbes = 0 then traceDefProbes else p.tracerouteProbes).toInt32.toInt,
    " -w ".toList ++
      decimal (if p.tracerouteTimeout = 0 then traceDefWait else p.tracerouteTimeout).toNat]
    ++ (if p.isIpv4 then p.ipv4Options else [])

/-- What `traceroute_handler` appends, call by call. -/
def pieces : List CString :=
  commandPieces (namespaceOf p.mgmt p.vrfN) p.tool [] p.tracerouteTarget p.options

end TracerouteEntry

theorem tracerouteHandler_eq (p : TracerouteEntry) :
    tracerouteHandler true (some p)
      = Buffer.empty.appendAll p.pieces >>= fun b => .ok (.popen b) := by
  unfold tracerouteHandler TracerouteEntry.pieces commandPieces TracerouteEntry.options
    TracerouteEntry.ipv4Options namespaceOf TracerouteEntry.tool
  simp only [Buffer.appendAll_append, Buffer.appendAll_cons, Buffer.appendAll_ite,
    Buffer.appendAll_toList, Buffer.appendAll_nil, apply_ite (· ++ [' ']),
    apply_ite (Buffer.append _), bind_assoc, bind_pure]
  rfl

namespace TracerouteEntry

variable {p : TracerouteEntry}

/-! ## What the checks leave -/

/-- What the checks say about an entry. -/
structure Checked (p : TracerouteEntry) : Prop where
  target : ∀ target ∈ p.tracerouteTarget, target.length ≤ tracerouteMaxHostnameLength
  looseIp : ∀ looseIp ∈ p.tracerouteLoosesourceIp, (Libc.inetPton looseIp).isSome = true
  vrf : IsNamespace p.vrfN

theorem checked_zero : zero.Checked := ⟨nofun, nofun, by decide, rfl⟩

/-- An accepted argument keeps what the checks say. -/
theorem Checked.decodeTracerouteParam {sw : Switch} (hsw : sw.NamesNamespaces)
    {newline : CString} {value : Option CString} {type : TracerouteArguments}
    {d : Decoded TracerouteEntry} (hp : p.Checked)
    (h : Diagtools.decodeTracerouteParam sw newline value type p = .ok d)
    (hd : d.result = .success) : d.entry.Checked := by
  have htarget : ∀ {target : CString} {q : TracerouteEntry},
      target.length ≤ tracerouteMaxHostnameLength → q.tracerouteTarget = some target →
      q.tracerouteLoosesourceIp = p.tracerouteLoosesourceIp → q.vrfN = p.vrfN → q.Checked := by
    intro target q hlength htarget hloose hvrf
    refine ⟨?_, hloose ▸ hp.looseIp, hvrf ▸ hp.vrf⟩
    rw [htarget]
    rintro _ ⟨⟩
    exact hlength
  cases value with
  | none => cases type <;> cases h <;> exact hp
  | some value =>
    cases type with
    | destination =>
      rw [Diagtools.decodeTracerouteParam] at h
      have ⟨word, hword⟩ := decodeDestination_accepted h hd
      rcases hword with ⟨hlength, hentry⟩ | haddr
      · exact htarget hlength (by rw [hentry]) (by rw [hentry]) (by rw [hentry])
      · obtain ⟨haddr', hentry⟩ := Option.ite_none_right_eq_some.mp (Except.ok.inj haddr)
        have hlength := (Libc.text_of_inetPton haddr').1
        rw [← Option.some.inj hentry]
        exact htarget (hlength.trans (by decide)) rfl rfl rfl
    | ipv6Destination =>
      rw [Diagtools.decodeTracerouteParam] at h
      have ⟨word, hword⟩ := decodeDestination_accepted h hd
      rcases hword with ⟨hlength, hentry⟩ | haddr
      · exact htarget hlength (by rw [hentry]) (by rw [hentry]) (by rw [hentry])
      · exact absurd haddr (ipv6Address_ne word _ _)
    | ipOption =>
      simp only [Diagtools.decodeTracerouteParam] at h
      split at h
      · cases h
        exact absurd hd nofun
      · rename_i haddr
        cases h
        refine ⟨hp.target, ?_, hp.vrf⟩
        rintro _ ⟨⟩
        simpa [Option.isSome_iff_ne_none] using haddr
    | tracerouteVrfName =>
      simp only [Diagtools.decodeTracerouteParam] at h
      split at h
      · cases h
        exact absurd hd nofun
      · rename_i ns hns
        cases h
        exact ⟨hp.target, hp.looseIp, hsw hns⟩
    | _ =>
      cases h
      exact ⟨hp.target, hp.looseIp, hp.vrf⟩

/-- Accepted arguments lead to checked entries. -/
theorem checked_of_decodeAll {sw : Switch} (hsw : sw.NamesNamespaces) {newline : CString}
    {arguments : List (TracerouteArguments × Option CString)}
    (h : decodeAll (Diagtools.decodeTracerouteParam sw newline) arguments zero = .ok (some p)) :
    p.Checked :=
  decodeAll_preserves (fun hp => hp.decodeTracerouteParam hsw) checked_zero h

/-! ## One command -/

theorem Checked.isLiteral_ipv4Options (hp : p.Checked) :
    p.ipv4Options.flatten.all isLiteral = true := by
  refine isLiteral_cons (isLiteral_number (by decide) _) ?_
  cases hloose : p.tracerouteLoosesourceIp with
  | none => rfl
  | some looseIp =>
    have haddr := hp.looseIp looseIp hloose
    refine isLiteral_cons ?_ rfl
    rw [List.all_append, all_isLiteral_of (by decide) (Libc.text_of_inetPton haddr).2]
    decide

/-- The options are text only. -/
theorem Checked.isLiteral_options (hp : p.Checked) : p.options.flatten.all isLiteral = true := by
  refine isLiteral_append ?_ ?_
  · refine isLiteral_cons (isLiteral_number (by decide) _) ?_
    refine isLiteral_cons (isLiteral_number (by decide) _) ?_
    refine isLiteral_cons (isLiteral_number (by decide) _) ?_
    exact isLiteral_cons (isLiteral_number (by decide) _) rfl
  · split
    · exact hp.isLiteral_ipv4Options
    · rfl

theorem Checked.length_ipv4Options (hp : p.Checked) : p.ipv4Options.flatten.length ≤ 27 := by
  have hminttl := numberLength_uint8
    (if p.tracerouteMinttl = 0 then traceDefMinttl else p.tracerouteMinttl)
  have hloose :
      (p.tracerouteLoosesourceIp.map (" -g ".toList ++ ·)).toList.flatten.length ≤ 19 := by
    cases hloose : p.tracerouteLoosesourceIp with
    | none => decide
    | some looseIp =>
      have haddr := (Libc.text_of_inetPton (hp.looseIp looseIp hloose)).1
      simp
      omega
  rw [ipv4Options, List.flatten_cons, List.length_append, List.length_append]
  exact Nat.add_le_add hminttl hloose

theorem Checked.length_options (hp : p.Checked) : p.options.flatten.length ≤ 68 := by
  have hport := numberLength_uint16
    (if p.tracerouteDstport = 0 then traceDefPort else p.tracerouteDstport)
  have hmaxttl := numberLength_uint8
    (if p.tracerouteMaxttl = 0 then traceDefMaxttl else p.tracerouteMaxttl)
  have hprobes := numberLength_int32
    (if p.tracerouteProbes = 0 then traceDefProbes else p.tracerouteProbes).toInt32
  have htimeout := numberLength_uint8
    (if p.tracerouteTimeout = 0 then traceDefWait else p.tracerouteTimeout)
  have hipv4 : (if p.isIpv4 then p.ipv4Options else []).flatten.length ≤ 27 := by
    split
    · exact hp.length_ipv4Options
    · exact Nat.zero_le 27
  rw [options, List.flatten_append, List.length_append]
  simp only [List.flatten_cons, List.flatten_nil, List.length_append, List.append_nil]
  exact Nat.add_le_add (Nat.add_le_add hport (Nat.add_le_add hmaxttl
    (Nat.add_le_add hprobes htimeout))) hipv4

/-- The line fits. -/
theorem Checked.length_pieces (hp : p.Checked) : p.pieces.flatten.length < bufsiz := by
  have hns := length_namespaceOf p.mgmt hp.vrf
  have htool : p.tool.length ≤ 11 := by
    rw [tool]
    split <;> decide
  have htarget : (p.tracerouteTarget.getD []).length ≤ tracerouteMaxHostnameLength := by
    cases h : p.tracerouteTarget with
    | none => exact Nat.zero_le _
    | some target => exact hp.target target h
  have hoptions := hp.length_options
  rw [pieces, length_commandPieces, List.flatten_nil, List.length_nil]
  rw [uuidLen] at hns
  rw [tracerouteMaxHostnameLength] at htarget
  rw [bufsiz]
  omega

/-- `traceroute_handler` runs one command if and only if the target can stand between double
quotes. -/
theorem Checked.runsOneCommand_iff {sh : Shell} (hp : p.Checked) :
    RunsOneCommand sh [exePath, namespaceOf p.mgmt p.vrfN, p.tool] (tracerouteHandler true (some p))
      ↔ StaysQuoted sh (p.tracerouteTarget.getD []) := by
  have htool : p.tool ≠ [] ∧ p.tool.all isWordChar = true := by
    rw [tool]
    split <;> decide
  rw [Diagtools.runsOneCommand_iff (tracerouteHandler_eq p) (isWord_namespaceOf p.mgmt hp.vrf)
    htool rfl hp.isLiteral_options rfl]
  exact and_iff_left hp.length_pieces

end TracerouteEntry

end Diagtools
end IpApps
