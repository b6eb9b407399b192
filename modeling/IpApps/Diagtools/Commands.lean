import IpApps.Diagtools.Nwdiag

/-!
# The diagnostic commands

The commands check their arguments in a fixed order and give the entry to the handler. The numbers
of the arguments are stored in fields of eight or sixteen bits, with zero for an argument that
there is not. `pings_run_iff` and `traceroutes_run_iff` say when the tool gets the numbers that
were typed, and defaults for the others.
-/

namespace IpApps
namespace Diagtools

open ExceptLoops ShellWords Snprintf

/-! ## The commands -/

section commands

variable (sw : Switch)

-- `VTY_NEWLINE`
variable (newline : CString)

-- the arguments in the order of the command, without those that are not given
variable (argv : ℕ → Option CString)

/-- `cli_ping` up to `ping_main`. -/
def cliPing : Except Undefined (Option PingEntry) :=
  decodeAll (decodeParam sw newline)
    [(.ipv4Destination, argv 0), (.dataSize, argv 1), (.dataFill, argv 2), (.repetitions, argv 3),
      (.interval, argv 4), (.timeout, argv 5), (.typeOfService, argv 6), (.pingIpOption, argv 7),
      (.vrfName, argv 8), (.mgmt, argv 9)]
    .zero

/-- `cli_ping6` up to `ping_main`. -/
def cliPing6 : Except Undefined (Option PingEntry) :=
  decodeAll (decodeParam sw newline)
    [(.ipv6Destination, argv 0), (.dataSize, argv 1), (.dataFill, argv 2), (.repetitions, argv 3),
      (.interval, argv 4), (.vrfName, argv 5), (.mgmt, argv 6)]
    .zero

/-- The check of the minimum TTL against the maximum TTL. -/
def minTtlAccepted (maxTtl minTtl : Option CString) : Bool :=
  match minTtl, maxTtl with
  | none, _ => true
  | some minTtl, some maxTtl => Libc.atoi minTtl ≤ Libc.atoi maxTtl
  -- `TRACE_DEF_MAXTTL`
  | some minTtl, none => Libc.atoi minTtl ≤ 30

/-- The arguments of a command for `traceroute`, in front of the minimum TTL and from there on, with
the check in between. -/
def decodeTraceroute (front : List (TracerouteArguments × Option CString))
    (maxTtl minTtl : Option CString) (rest : List (TracerouteArguments × Option CString)) :
    Except Undefined (Option TracerouteEntry) := do
  match ← decodeAll (decodeTracerouteParam sw newline) front .zero with
  | none => return none
  | some p =>
    if minTtlAccepted maxTtl minTtl then
      decodeAll (decodeTracerouteParam sw newline) ((.minTtl, minTtl) :: rest) p
    else return none

/-- `cli_traceroute` up to `traceroute_handler`. -/
def cliTraceroute : Except Undefined (Option TracerouteEntry) :=
  decodeTraceroute sw newline
    [(.destination, argv 0), (.dstPort, argv 1), (.maxTtl, argv 2)] (argv 2) (argv 3)
    [(.probes, argv 4), (.timeOut, argv 5), (.tracerouteVrfName, argv 6), (.tracerouteMgmt, argv 7)]

/-- `cli_traceroute_ipoption` up to `traceroute_handler`. -/
def cliTracerouteIpoption : Except Undefined (Option TracerouteEntry) :=
  decodeTraceroute sw newline
    [(.destination, argv 0), (.ipOption, argv 1), (.dstPort, argv 2), (.maxTtl, argv 3)]
    (argv 3) (argv 4) [(.probes, argv 5), (.timeOut, argv 6)]

/-- `cli_traceroute6` up to `traceroute_handler`. -/
def cliTraceroute6 : Except Undefined (Option TracerouteEntry) :=
  decodeAll (decodeTracerouteParam sw newline)
    [(.ipv6Destination, argv 0), (.dstPort, argv 1), (.maxTtl, argv 2), (.probes, argv 3),
      (.timeOut, argv 4), (.tracerouteVrfName, argv 5), (.tracerouteMgmt, argv 6)]
    .zero

end commands

/-! ## Numbers -/

/-- The number of an argument. -/
def numberOf (default : ℤ) (value : Option CString) : ℤ :=
  value.elim default fun value => (Libc.atoi value).toInt

/-- A range of the grammar, for an argument that there may be. -/
def InRange (low high : ℤ) (value : Option CString) : Prop :=
  ∀ v ∈ value, low ≤ (Libc.atoi v).toInt ∧ (Libc.atoi v).toInt ≤ high

instance (low high : ℤ) (value : Option CString) : Decidable (InRange low high value) :=
  inferInstanceAs (Decidable (∀ v ∈ value, _ ∧ _))

theorem toNat_toUInt32 {i : Int32} (h : 0 ≤ i.toInt) : (i.toUInt32.toNat : ℤ) = i.toInt := by
  rw [Int32.toNat_toUInt32_of_le (Int32.le_iff_toInt_le.mpr h)]
  exact Int.toNat_of_nonneg h

theorem toNat_toUInt16 {i : Int32} (h : 0 ≤ i.toInt) (hi : i.toInt < 2 ^ 16) :
    (i.toUInt32.toUInt16.toNat : ℤ) = i.toInt := by
  rw [UInt32.toNat_toUInt16, ← toNat_toUInt32 h]
  have := toNat_toUInt32 h
  omega

theorem toNat_toUInt8 {i : Int32} (h : 0 ≤ i.toInt) (hi : i.toInt < 2 ^ 8) :
    (i.toUInt32.toUInt8.toNat : ℤ) = i.toInt := by
  rw [UInt32.toNat_toUInt8, ← toNat_toUInt32 h]
  have := toNat_toUInt32 h
  omega

/-- The number of an argument, stored in sixteen bits. -/
def uint16Of (value : Option CString) : UInt16 :=
  value.elim 0 fun value => (Libc.atoi value).toUInt32.toUInt16

/-- The number of an argument, stored in eight bits. -/
def uint8Of (value : Option CString) : UInt8 :=
  value.elim 0 fun value => (Libc.atoi value).toUInt32.toUInt8

/-- A number that is not zero is stored as it is, and the default stands for an argument that there
is not. -/
theorem number_default {β : Type} [DecidableEq β] {field : Option CString → β} {zero : β}
    {number : β → ℤ} {low high : ℤ} {value : Option CString} (h : InRange low high value)
    (hlow : 0 < low) (hnone : field none = zero) (hzero : number zero = 0)
    (hnumber : ∀ v, InRange low high (some v) → number (field (some v)) = (Libc.atoi v).toInt)
    (default : β) :
    number (if field value = zero then default else field value)
      = numberOf (number default) value := by
  cases value with
  | none =>
    rw [if_pos hnone]
    rfl
  | some v =>
    have hv := hnumber v h
    -- a number in the range is not 0, which stands for a missing one
    have hne : field (some v) ≠ zero := by
      intro heq
      have hpositive := (h v rfl).1
      rw [heq, hzero] at hv
      omega
    rw [if_neg hne]
    exact hv

theorem uint16Of_default {low high : ℤ} {value : Option CString} (h : InRange low high value)
    (hlow : 0 < low) (hhigh : high < 2 ^ 16) (default : UInt16) :
    ((if uint16Of value = 0 then default else uint16Of value).toNat : ℤ)
      = numberOf default.toNat value := by
  refine @number_default UInt16 _ uint16Of 0 (·.toNat) low high value h hlow rfl rfl ?_ default
  intro v hv
  obtain ⟨hge, hle⟩ := hv v rfl
  exact toNat_toUInt16 (by omega) (by omega)

theorem uint8Of_eq {low high : ℤ} {value : Option CString} (h : InRange low high value)
    (hlow : 0 ≤ low) (hhigh : high < 2 ^ 8) : ((uint8Of value).toNat : ℤ) = numberOf 0 value := by
  cases value with
  | none => rfl
  | some v =>
    obtain ⟨hv, hv'⟩ := h v rfl
    exact @toNat_toUInt8 (Libc.atoi v) (by omega) (by omega)

theorem uint8Of_default {low high : ℤ} {value : Option CString} (h : InRange low high value)
    (hlow : 0 < low) (hhigh : high < 2 ^ 8) (default : UInt8) :
    ((if uint8Of value = 0 then default else uint8Of value).toNat : ℤ)
      = numberOf default.toNat value :=
  @number_default UInt8 _ uint8Of 0 (·.toNat) low high value h hlow rfl rfl
    (fun _ hv => uint8Of_eq hv hlow.le hhigh) default

/-! ## The entries -/

/-- The entry of accepted arguments, one after the other. -/
theorem decodeAll_cons_eq_some {α ι : Type}
    {decode : Option CString → ι → α → Except Undefined (Decoded α)} {type : ι}
    {value : Option CString} {arguments : List (ι × Option CString)} {p q : α}
    (h : decodeAll decode ((type, value) :: arguments) p = .ok (some q)) :
    ∃ d, decode value type p = .ok d ∧ d.result = .success ∧
      decodeAll decode arguments d.entry = .ok (some q) := by
  obtain ⟨d, hd, hrest⟩ := bind_eq_ok h
  cases hresult : d.result with
  | success =>
    rw [hresult] at hrest
    exact ⟨d, hd, hresult, hrest⟩
  | warning =>
    rw [hresult] at hrest
    cases hrest

/-- Accepted arguments are stored one after the other. -/
theorem foldl_of_decodeAll {α ι : Type}
    {decode : Option CString → ι → α → Except Undefined (Decoded α)}
    {stored : α → ι → Option CString → α}
    (hstep : ∀ {p value type d}, decode value type p = .ok d → d.result = .success →
      d.entry = stored p type value)
    {arguments : List (ι × Option CString)} {p q : α}
    (h : decodeAll decode arguments p = .ok (some q)) :
    q = arguments.foldl (fun p argument => stored p argument.1 argument.2) p := by
  induction arguments generalizing p with
  | nil =>
    cases h
    rfl
  | cons argument arguments ih =>
    obtain ⟨d, hd, hsuccess, hrest⟩ := decodeAll_cons_eq_some h
    rw [List.foldl_cons, ← hstep hd hsuccess]
    exact ih hrest

/-- The word is a broadcast address. -/
def Switch.isBroadcast (sw : Switch) (value : CString) : Bool :=
  !isHostname value && (Libc.inetPton value).any fun addr =>
    sw.isBroadcastIpv4 (Libc.htonl addr.toNat) || sw.isSubnetBroadcast (Libc.htonl addr.toNat)

/-- The namespace of a VRF that there may be. -/
def Switch.vrfOf (sw : Switch) (value : Option CString) : CString :=
  (value.bind sw.getVrfNsFromName).getD []

/-- The entry with an accepted argument. -/
def PingEntry.stored (sw : Switch) (p : PingEntry) (type : PingArguments)
    (value : Option CString) : PingEntry :=
  match type with
  | .ipv4Destination =>
    { p with
      isBcast := if value.any isHostname then p.isBcast else value.any sw.isBroadcast
      isIpv4 := true
      pingTarget := value }
  | .ipv6Destination => { p with pingTarget := value }
  | .dataFill => { p with pingDataFill := value.elim p.pingDataFill some }
  | .dataSize => { p with pingDataSize := value.elim p.pingDataSize fun _ => uint16Of value }
  | .repetitions =>
    { p with pingRepetitions := value.elim p.pingRepetitions fun _ => uint16Of value }
  | .interval => { p with pingInterval := value.elim p.pingInterval fun _ => uint8Of value }
  | .timeout => { p with pingTimeout := value.elim p.pingTimeout fun _ => uint8Of value }
  | .typeOfService => { p with pingTos := value.elim p.pingTos fun _ => uint8Of value }
  | .pingIpOption =>
    { p with
      includeTimestamp := p.includeTimestamp || value = some "include-timestamp".toList
      includeTimestampAddress :=
        p.includeTimestampAddress || value = some "include-timestamp-and-address".toList
      recordRoute := p.recordRoute || value = some "record-route".toList }
  | .vrfName => { p with vrfN := value.elim p.vrfN fun _ => sw.vrfOf value }
  | .mgmt => { p with mgmt := p.mgmt || value.isSome }

theorem decodeIpOption_eq (sw : Switch) (value : CString) (p : PingEntry) :
    decodeIpOption value p = p.stored sw .pingIpOption (some value) := by
  unfold decodeIpOption PingEntry.stored
  by_cases h : value = "include-timestamp".toList
  · rw [if_pos h, h]
    simp
  rw [if_neg h]
  by_cases h' : value = "include-timestamp-and-address".toList
  · rw [if_pos h', h']
    simp
  rw [if_neg h']
  by_cases h'' : value = "record-route".toList
  · rw [if_pos h'', h'']
    simp
  · rw [if_neg h'']
    simp only [Option.some.injEq, h, h', h'', decide_false, Bool.or_false]

theorem decodeDataFill_accepted {newline value : CString} {p : PingEntry} {d : Decoded PingEntry}
    (h : decodeDataFill newline value p = .ok d) (hd : d.result = .success) :
    d.entry = { p with pingDataFill := some value } := by
  unfold decodeDataFill at h
  split at h
  · cases h
  split at h
  · cases h
    cases hd
  · cases h
    rfl

/-- An accepted destination is stored as a hostname or as an address. -/
theorem decodeDestination_stored {α : Type} {maxLength : ℕ} {tooLong invalid value : CString}
    {hostname : CString → α} {address : CString → Except Undefined (Option α)} {p : α}
    {d : Decoded α}
    (h : decodeDestination maxLength tooLong invalid hostname address p (some value) = .ok d)
    (hd : d.result = .success) :
    (isHostname value = true ∧ d.entry = hostname value) ∨
      (isHostname value = false ∧ address value = .ok (some d.entry)) := by
  rw [decodeDestination] at h
  cases hname : isHostname value with
  | true =>
    rw [if_pos hname] at h
    split at h
    · cases h
      cases hd
    · cases h
      exact .inl ⟨rfl, rfl⟩
  | false =>
    rw [if_neg (by simp [hname])] at h
    obtain ⟨found, hfound, hrest⟩ := bind_eq_ok h
    cases found with
    | none =>
      cases hrest
      cases hd
    | some entry =>
      cases hrest
      exact .inr ⟨rfl, hfound⟩

/-- What an accepted argument does to the entry. -/
theorem decodeParam_stored {sw : Switch} {newline : CString} {value : Option CString}
    {type : PingArguments} {p : PingEntry} {d : Decoded PingEntry}
    (h : decodeParam sw newline value type p = .ok d) (hd : d.result = .success) :
    d.entry = p.stored sw type value := by
  cases value with
  | none =>
    cases type with
    | ipv4Destination => cases h
    | ipv6Destination => cases h
    | mgmt | pingIpOption =>
      cases h
      simp [PingEntry.stored, Decoded.accept]
    | _ =>
      cases h
      rfl
  | some value =>
    cases type with
    | ipv4Destination =>
      rw [decodeParam] at h
      rcases decodeDestination_stored h hd with ⟨hname, hentry⟩ | ⟨hname, haddr⟩
      · rw [hentry]
        simp [PingEntry.stored, hname]
      · obtain ⟨addr, haddr', hentry⟩ := Option.map_eq_some_iff.mp (Except.ok.inj haddr)
        rw [← hentry]
        simp [PingEntry.stored, Switch.isBroadcast, hname, haddr']
    | ipv6Destination =>
      rw [decodeParam] at h
      rcases decodeDestination_stored h hd with ⟨_, hentry⟩ | ⟨_, haddr⟩
      · exact hentry
      · exact absurd haddr (ipv6Address_ne value _ _)
    | dataFill => exact decodeDataFill_accepted h hd
    | pingIpOption =>
      cases h
      exact decodeIpOption_eq sw value p
    | vrfName =>
      rw [decodeParam] at h
      cases hns : sw.getVrfNsFromName value with
      | none =>
        rw [hns] at h
        cases h
        cases hd
      | some ns =>
        rw [hns] at h
        cases h
        simp [PingEntry.stored, Switch.vrfOf, Decoded.accept, hns]
    | mgmt =>
      cases h
      simp [PingEntry.stored, Decoded.accept]
    | _ =>
      cases h
      rfl

/-! ## The calls as typed -/

/-- A flag with the number of an argument. -/
def optionalNumber (flag : CString) (value : Option CString) : List CString :=
  if numberOf 0 value ≠ 0 then [flag, decimal (numberOf 0 value)] else []

/-- A flag with the text of an argument. -/
def optionalText (flag : CString) (value : Option CString) : List CString :=
  value.elim [] fun value => [flag, value]

/-- The options of both versions of `ping`. -/
def pingOptions (size fill count interval : Option CString) : List CString :=
  ["-c".toList, decimal (numberOf 5 count), "-s".toList, decimal (numberOf 100 size)]
    ++ optionalNumber "-i".toList interval ++ optionalText "-p".toList fill

/-- The IP option. -/
def ipOptionCall (value : Option CString) : List CString :=
  if value = some "include-timestamp".toList then ["-T".toList, "tsonly".toList]
  else if value = some "include-timestamp-and-address".toList then
    ["-T".toList, "tsandaddr".toList]
  else if value = some "record-route".toList then ["-R".toList]
  else []

/-- The call of `ping` for the arguments of `cli_ping`. -/
def pingCall (isBcast : Bool) (argv : ℕ → Option CString) : List CString :=
  "ping".toList :: ((if isBcast then ["-b".toList] else []) ++ (argv 0).toList
    ++ (pingOptions (argv 1) (argv 2) (argv 3) (argv 4)
      ++ (["-W".toList, decimal (numberOf 2 (argv 5))] ++ optionalNumber "-Q".toList (argv 6)
        ++ ipOptionCall (argv 7))))

/-- The call of `ping6` for the arguments of `cli_ping6`. -/
def ping6Call (argv : ℕ → Option CString) : List CString :=
  "ping6".toList :: ((argv 0).toList ++ pingOptions (argv 1) (argv 2) (argv 3) (argv 4))

/-- The numbers are in the ranges of the grammar of `cli_ping`. -/
structure PingRanges (argv : ℕ → Option CString) : Prop where
  size : InRange 100 65399 (argv 1)
  repetitions : InRange 1 10000 (argv 3)
  interval : InRange 1 60 (argv 4)
  timeout : InRange 1 60 (argv 5)
  tos : InRange 0 255 (argv 6)

/-- The numbers are in the ranges of the grammar of `cli_ping6`. -/
structure Ping6Ranges (argv : ℕ → Option CString) : Prop where
  size : InRange 100 65468 (argv 1)
  repetitions : InRange 1 10000 (argv 3)
  interval : InRange 1 60 (argv 4)

theorem optionalNumber_uint8Of {low high : ℤ} {value : Option CString}
    (h : InRange low high value) (hlow : 0 ≤ low) (hhigh : high < 2 ^ 8) (flag : CString) :
    (if uint8Of value ≠ 0 then [flag, decimal (uint8Of value).toNat] else [])
      = optionalNumber flag value := by
  have hnumber := uint8Of_eq h hlow hhigh
  have hzero : uint8Of value = 0 ↔ numberOf 0 value = 0 := by
    rw [← hnumber, ← UInt8.toNat_inj]
    exact Int.natCast_eq_zero.symm
  rw [optionalNumber, ← hnumber]
  simp only [ne_eq, hzero, hnumber]

theorem elim_uint16Of (value : Option CString) :
    (value.elim 0 fun _ => uint16Of value) = uint16Of value := by
  cases value <;> rfl

theorem elim_uint8Of (value : Option CString) :
    (value.elim 0 fun _ => uint8Of value) = uint8Of value := by
  cases value <;> rfl

theorem elim_text (value : Option CString) : value.elim none some = value := by
  cases value <;> rfl

/-- The options of an entry with these numbers and this data-fill. -/
theorem pingOptions_eq {p : PingEntry} {size fill count interval : Option CString} {high : ℤ}
    (hsize : p.pingDataSize = uint16Of size) (hfill : p.pingDataFill = fill)
    (hcount : p.pingRepetitions = uint16Of count) (hinterval : p.pingInterval = uint8Of interval)
    (hsizeRange : InRange 100 high size) (hhigh : high < 2 ^ 16)
    (hcountRange : InRange 1 10000 count) (hintervalRange : InRange 1 60 interval) :
    p.optionWords = pingOptions size fill count interval
      ++ if p.isIpv4 then p.ipv4Words else [] := by
  have hcountNumber := uint16Of_default hcountRange (by decide) (by decide) pingDefCount
  have hsizeNumber := uint16Of_default hsizeRange (by decide) hhigh pingDefSize
  rw [PingEntry.optionWords, hsize, hfill, hcount, hinterval, hcountNumber, hsizeNumber,
    optionalNumber_uint8Of hintervalRange (by decide) (by decide)]
  rfl

theorem elim_vrfOf (sw : Switch) (value : Option CString) :
    (value.elim [] fun _ => sw.vrfOf value) = sw.vrfOf value := by
  cases value <;> rfl

/-- A hostname is not a broadcast address. -/
theorem isBroadcast_eq (sw : Switch) (value : Option CString) :
    (if value.any isHostname then false else value.any sw.isBroadcast)
      = value.any sw.isBroadcast := by
  cases value with
  | none => rfl
  | some value =>
    by_cases hname : isHostname value = true
    · simp [Switch.isBroadcast, hname]
    · exact if_neg hname

/-- The call of `ping` has the arguments of the command. -/
theorem entry_of_cliPing {sw : Switch} {newline : CString} {argv : ℕ → Option CString}
    {p : PingEntry} (h : cliPing sw newline argv = .ok (some p)) (hrange : PingRanges argv) :
    p.words = pingCall ((argv 0).any sw.isBroadcast) argv ∧ p.pingTarget = argv 0 ∧
      p.pingDataFill = argv 2 ∧ p.mgmt = (argv 9).isSome ∧ p.vrfN = sw.vrfOf (argv 8) := by
  have hp := foldl_of_decodeAll decodeParam_stored h
  simp only [List.foldl_cons, List.foldl_nil] at hp
  have hoptions := @pingOptions_eq p (argv 1) (argv 2) (argv 3) (argv 4) _
    (by rw [hp]; exact elim_uint16Of _) (by rw [hp]; exact elim_text _)
    (by rw [hp]; exact elim_uint16Of _) (by rw [hp]; exact elim_uint8Of _)
    hrange.size (by decide) hrange.repetitions hrange.interval
  have htimeout := uint8Of_default hrange.timeout (by decide) (by decide) pingDefTimeout
  have htimeoutField : p.pingTimeout = uint8Of (argv 5) := by rw [hp]; exact elim_uint8Of _
  have htosField : p.pingTos = uint8Of (argv 6) := by rw [hp]; exact elim_uint8Of _
  have hoption : p.ipOptionWords = ipOptionCall (argv 7) := by
    rw [hp]
    simp only [PingEntry.ipOptionWords, ipOptionCall, PingEntry.stored, PingEntry.zero,
      Bool.false_or, decide_eq_true_eq]
  have hipv4 : p.isIpv4 = true := by rw [hp]; rfl
  have htarget : p.pingTarget = argv 0 := by rw [hp]; rfl
  have hbcast : p.isBcast = (argv 0).any sw.isBroadcast := by rw [hp]; exact isBroadcast_eq sw _
  refine ⟨?_, htarget, ?_, ?_, ?_⟩
  · rw [PingEntry.words, hoptions, if_pos hipv4, PingEntry.ipv4Words, htimeoutField, htosField,
      htimeout, optionalNumber_uint8Of hrange.tos (by decide) (by decide), hoption, htarget,
      hbcast, PingEntry.tool, if_pos hipv4]
    rfl
  · rw [hp]; exact elim_text _
  · rw [hp]; exact Bool.false_or _
  · rw [hp]; exact elim_vrfOf sw _

/-- The call of `ping6` has the arguments of the command. -/
theorem entry_of_cliPing6 {sw : Switch} {newline : CString} {argv : ℕ → Option CString}
    {p : PingEntry} (h : cliPing6 sw newline argv = .ok (some p)) (hrange : Ping6Ranges argv) :
    p.words = ping6Call argv ∧ p.pingTarget = argv 0 ∧ p.pingDataFill = argv 2 ∧
      p.mgmt = (argv 6).isSome ∧ p.vrfN = sw.vrfOf (argv 5) := by
  have hp := foldl_of_decodeAll decodeParam_stored h
  simp only [List.foldl_cons, List.foldl_nil] at hp
  have hoptions := @pingOptions_eq p (argv 1) (argv 2) (argv 3) (argv 4) _
    (by rw [hp]; exact elim_uint16Of _) (by rw [hp]; exact elim_text _)
    (by rw [hp]; exact elim_uint16Of _) (by rw [hp]; exact elim_uint8Of _)
    hrange.size (by decide) hrange.repetitions hrange.interval
  have hipv4 : ¬p.isIpv4 = true := by rw [hp]; exact Bool.false_ne_true
  have hbcast : ¬p.isBcast = true := by rw [hp]; exact Bool.false_ne_true
  have htarget : p.pingTarget = argv 0 := by rw [hp]; rfl
  refine ⟨?_, htarget, ?_, ?_, ?_⟩
  · rw [PingEntry.words, hoptions, if_neg hipv4, if_neg hbcast, htarget, PingEntry.tool,
      if_neg hipv4, List.append_nil]
    rfl
  · rw [hp]; exact elim_text _
  · rw [hp]; exact Bool.false_or _
  · rw [hp]; exact elim_vrfOf sw _

/-! ## Traceroute -/

/-- The number of an argument, stored in thirty-two bits. -/
def uint32Of (value : Option CString) : UInt32 :=
  value.elim 0 fun value => (Libc.atoi value).toUInt32

theorem elim_uint32Of (value : Option CString) :
    (value.elim 0 fun _ => uint32Of value) = uint32Of value := by
  cases value <;> rfl

theorem uint32Of_default {low high : ℤ} {value : Option CString} (h : InRange low high value)
    (hlow : 0 < low) (default : UInt32) :
    (if uint32Of value = 0 then default else uint32Of value).toInt32.toInt
      = numberOf default.toInt32.toInt value :=
  @number_default UInt32 _ uint32Of 0 (·.toInt32.toInt) low high value h hlow rfl rfl
    (fun _ _ => rfl) default

/-- The entry with an accepted argument. -/
def TracerouteEntry.stored (sw : Switch) (p : TracerouteEntry) (type : TracerouteArguments)
    (value : Option CString) : TracerouteEntry :=
  match type with
  | .destination => { p with isIpv4 := true, tracerouteTarget := value }
  | .ipv6Destination => { p with tracerouteTarget := value }
  | .ipOption =>
    { p with tracerouteLoosesourceIp := value.elim p.tracerouteLoosesourceIp some }
  | .dstPort =>
    { p with tracerouteDstport := value.elim p.tracerouteDstport fun _ => uint16Of value }
  | .maxTtl => { p with tracerouteMaxttl := value.elim p.tracerouteMaxttl fun _ => uint8Of value }
  | .minTtl => { p with tracerouteMinttl := value.elim p.tracerouteMinttl fun _ => uint8Of value }
  | .probes =>
    { p with tracerouteProbes := value.elim p.tracerouteProbes fun _ => uint32Of value }
  | .timeOut =>
    { p with tracerouteTimeout := value.elim p.tracerouteTimeout fun _ => uint8Of value }
  | .tracerouteVrfName => { p with vrfN := value.elim p.vrfN fun _ => sw.vrfOf value }
  | .tracerouteMgmt => { p with mgmt := p.mgmt || value.isSome }

/-- What an accepted argument does to the entry. -/
theorem decodeTracerouteParam_stored {sw : Switch} {newline : CString} {value : Option CString}
    {type : TracerouteArguments} {p : TracerouteEntry} {d : Decoded TracerouteEntry}
    (h : decodeTracerouteParam sw newline value type p = .ok d) (hd : d.result = .success) :
    d.entry = p.stored sw type value := by
  cases value with
  | none =>
    cases type with
    | destination => cases h
    | ipv6Destination => cases h
    | tracerouteMgmt =>
      cases h
      simp [TracerouteEntry.stored, Decoded.accept]
    | _ =>
      cases h
      rfl
  | some value =>
    cases type with
    | destination =>
      rw [decodeTracerouteParam] at h
      rcases decodeDestination_stored h hd with ⟨_, hentry⟩ | ⟨_, haddr⟩
      · exact hentry
      · obtain ⟨_, hentry⟩ := Option.ite_none_right_eq_some.mp (Except.ok.inj haddr)
        exact (Option.some.inj hentry).symm
    | ipv6Destination =>
      rw [decodeTracerouteParam] at h
      rcases decodeDestination_stored h hd with ⟨_, hentry⟩ | ⟨_, haddr⟩
      · exact hentry
      · exact absurd haddr (ipv6Address_ne value _ _)
    | ipOption =>
      simp only [decodeTracerouteParam] at h
      split at h
      · cases h
        cases hd
      · cases h
        rfl
    | tracerouteVrfName =>
      rw [decodeTracerouteParam] at h
      cases hns : sw.getVrfNsFromName value with
      | none =>
        rw [hns] at h
        cases h
        cases hd
      | some ns =>
        rw [hns] at h
        cases h
        simp [TracerouteEntry.stored, Switch.vrfOf, Decoded.accept, hns]
    | tracerouteMgmt =>
      cases h
      simp [TracerouteEntry.stored, Decoded.accept]
    | _ =>
      cases h
      rfl

/-- The call of `traceroute` or `traceroute6`, behind whose options those of IPv4 stand. -/
def tracerouteCall (tool : CString) (target dstport maxttl probes timeout : Option CString)
    (ipv4 : List CString) : List CString :=
  tool :: (target.toList
    ++ (["-p".toList, decimal (numberOf 33434 dstport), "-m".toList, decimal (numberOf 30 maxttl),
        "-q".toList, decimal (numberOf 3 probes), "-w".toList, decimal (numberOf 3 timeout)]
      ++ ipv4))

/-- The options of IPv4. -/
def tracerouteIpv4 (minttl looseIp : Option CString) : List CString :=
  ["-f".toList, decimal (numberOf 1 minttl)] ++ optionalText "-g".toList looseIp

/-- Numbers in the ranges of the grammar. -/
structure TracerouteRanges (dstport maxttl probes timeout : Option CString) : Prop where
  dstport : InRange 1 34000 dstport
  maxttl : InRange 1 255 maxttl
  probes : InRange 1 5 probes
  timeout : InRange 1 60 timeout

theorem words_eq_tracerouteCall {p : TracerouteEntry}
    {target dstport maxttl probes timeout : Option CString}
    (hrange : TracerouteRanges dstport maxttl probes timeout)
    (htarget : p.tracerouteTarget = target) (hdstport : p.tracerouteDstport = uint16Of dstport)
    (hmaxttl : p.tracerouteMaxttl = uint8Of maxttl)
    (hprobes : p.tracerouteProbes = uint32Of probes)
    (htimeout : p.tracerouteTimeout = uint8Of timeout) :
    p.words = tracerouteCall p.tool target dstport maxttl probes timeout
      (if p.isIpv4 then p.ipv4Words else []) := by
  have hdstportNumber := uint16Of_default hrange.dstport (by decide) (by decide) traceDefPort
  have hmaxttlNumber := uint8Of_default hrange.maxttl (by decide) (by decide) traceDefMaxttl
  have hprobesNumber := uint32Of_default hrange.probes (by decide) traceDefProbes
  have htimeoutNumber := uint8Of_default hrange.timeout (by decide) (by decide) traceDefWait
  rw [TracerouteEntry.words, TracerouteEntry.optionWords, htarget, hdstport, hmaxttl, hprobes,
    htimeout, hdstportNumber, hmaxttlNumber, hprobesNumber, htimeoutNumber]
  rfl

/-- The call of the IPv4 version. -/
theorem words_eq_tracerouteIpv4 {p : TracerouteEntry}
    {target dstport maxttl probes timeout minttl looseIp : Option CString}
    (hwords : p.words = tracerouteCall p.tool target dstport maxttl probes timeout
      (if p.isIpv4 then p.ipv4Words else []))
    (hipv4 : p.isIpv4 = true) (hrange : InRange 1 255 minttl)
    (hminttl : p.tracerouteMinttl = uint8Of minttl) (hloose : p.tracerouteLoosesourceIp = looseIp) :
    p.words = tracerouteCall "traceroute".toList target dstport maxttl probes timeout
      (tracerouteIpv4 minttl looseIp) := by
  have hnumber := uint8Of_default hrange (by decide) (by decide) traceDefMinttl
  rw [hwords, if_pos hipv4, TracerouteEntry.ipv4Words, hminttl, hloose, hnumber,
    TracerouteEntry.tool, if_pos hipv4]
  rfl

/-- The check leaves a minimum TTL that is not above the maximum. -/
theorem minTtl_le {maxttl minttl : Option CString} (h : minTtlAccepted maxttl minttl = true)
    (hmax : InRange 1 255 maxttl) : numberOf 1 minttl ≤ numberOf 30 maxttl := by
  cases minttl with
  | none =>
    cases maxttl with
    | none => decide
    | some v => exact (hmax v rfl).1
  | some v =>
    cases maxttl with
    | none => exact Int32.le_iff_toInt_le.mp (of_decide_eq_true h)
    | some w => exact Int32.le_iff_toInt_le.mp (of_decide_eq_true h)

/-- The arguments of a command with the check are accepted in front of it and behind it. -/
theorem decodeTraceroute_eq_some {sw : Switch} {newline : CString}
    {front rest : List (TracerouteArguments × Option CString)} {maxttl minttl : Option CString}
    {p : TracerouteEntry}
    (h : decodeTraceroute sw newline front maxttl minttl rest = .ok (some p)) :
    minTtlAccepted maxttl minttl = true ∧ ∃ q,
      decodeAll (decodeTracerouteParam sw newline) front .zero = .ok (some q) ∧
      decodeAll (decodeTracerouteParam sw newline) ((.minTtl, minttl) :: rest) q
        = .ok (some p) := by
  obtain ⟨q, hq, hrest⟩ := bind_eq_ok h
  cases q with
  | none => cases hrest
  | some q =>
    dsimp only at hrest
    split at hrest
    · rename_i haccepted
      exact ⟨haccepted, q, hq, hrest⟩
    · cases hrest

theorem foldl_of_decodeTraceroute {sw : Switch} {newline : CString}
    {front rest : List (TracerouteArguments × Option CString)} {maxttl minttl : Option CString}
    {p : TracerouteEntry}
    (h : decodeTraceroute sw newline front maxttl minttl rest = .ok (some p)) :
    p = (front ++ (.minTtl, minttl) :: rest).foldl
      (fun p argument => p.stored sw argument.1 argument.2) .zero := by
  obtain ⟨_, q, hfront, hrest⟩ := decodeTraceroute_eq_some h
  rw [List.foldl_append, ← foldl_of_decodeAll decodeTracerouteParam_stored hfront]
  exact foldl_of_decodeAll decodeTracerouteParam_stored hrest

theorem checked_of_decodeTraceroute {sw : Switch} (hsw : sw.NamesNamespaces) {newline : CString}
    {front rest : List (TracerouteArguments × Option CString)} {maxttl minttl : Option CString}
    {p : TracerouteEntry}
    (h : decodeTraceroute sw newline front maxttl minttl rest = .ok (some p)) : p.Checked := by
  obtain ⟨_, q, hfront, hrest⟩ := decodeTraceroute_eq_some h
  have hq : q.Checked := TracerouteEntry.checked_of_decodeAll hsw hfront
  exact decodeAll_preserves (fun hp => hp.decodeTracerouteParam hsw) hq hrest

theorem entry_of_cliTraceroute {sw : Switch} {newline : CString} {argv : ℕ → Option CString}
    {p : TracerouteEntry} (h : cliTraceroute sw newline argv = .ok (some p))
    (hrange : TracerouteRanges (argv 1) (argv 2) (argv 4) (argv 5))
    (hminttl : InRange 1 255 (argv 3)) :
    p.words = tracerouteCall "traceroute".toList (argv 0) (argv 1) (argv 2) (argv 4) (argv 5)
        (tracerouteIpv4 (argv 3) none) ∧
      numberOf 1 (argv 3) ≤ numberOf 30 (argv 2) ∧
      p.tracerouteTarget = argv 0 ∧ p.mgmt = (argv 7).isSome ∧ p.vrfN = sw.vrfOf (argv 6) := by
  obtain ⟨haccepted, _⟩ := decodeTraceroute_eq_some h
  have hp := foldl_of_decodeTraceroute h
  simp only [List.cons_append, List.nil_append, List.foldl_cons, List.foldl_nil] at hp
  have htarget : p.tracerouteTarget = argv 0 := by rw [hp]; rfl
  have hwords := words_eq_tracerouteCall hrange htarget
    (by rw [hp]; exact elim_uint16Of _) (by rw [hp]; exact elim_uint8Of _)
    (by rw [hp]; exact elim_uint32Of _) (by rw [hp]; exact elim_uint8Of _)
  refine ⟨?_, minTtl_le haccepted hrange.maxttl, htarget, ?_, ?_⟩
  · exact words_eq_tracerouteIpv4 hwords (by rw [hp]; rfl) hminttl
      (by rw [hp]; exact elim_uint8Of _) (by rw [hp]; rfl)
  · rw [hp]; exact Bool.false_or _
  · rw [hp]; exact elim_vrfOf sw _

theorem entry_of_cliTracerouteIpoption {sw : Switch} {newline : CString}
    {argv : ℕ → Option CString} {p : TracerouteEntry}
    (h : cliTracerouteIpoption sw newline argv = .ok (some p))
    (hrange : TracerouteRanges (argv 2) (argv 3) (argv 5) (argv 6))
    (hminttl : InRange 1 255 (argv 4)) :
    p.words = tracerouteCall "traceroute".toList (argv 0) (argv 2) (argv 3) (argv 5) (argv 6)
        (tracerouteIpv4 (argv 4) (argv 1)) ∧
      numberOf 1 (argv 4) ≤ numberOf 30 (argv 3) ∧
      p.tracerouteTarget = argv 0 ∧ p.mgmt = false ∧ p.vrfN = [] := by
  obtain ⟨haccepted, _⟩ := decodeTraceroute_eq_some h
  have hp := foldl_of_decodeTraceroute h
  simp only [List.cons_append, List.nil_append, List.foldl_cons, List.foldl_nil] at hp
  have htarget : p.tracerouteTarget = argv 0 := by rw [hp]; rfl
  have hwords := words_eq_tracerouteCall hrange htarget
    (by rw [hp]; exact elim_uint16Of _) (by rw [hp]; exact elim_uint8Of _)
    (by rw [hp]; exact elim_uint32Of _) (by rw [hp]; exact elim_uint8Of _)
  refine ⟨?_, minTtl_le haccepted hrange.maxttl, htarget, ?_, ?_⟩
  · exact words_eq_tracerouteIpv4 hwords (by rw [hp]; rfl) hminttl
      (by rw [hp]; exact elim_uint8Of _) (by rw [hp]; exact elim_text _)
  · rw [hp]; rfl
  · rw [hp]; rfl

theorem entry_of_cliTraceroute6 {sw : Switch} {newline : CString} {argv : ℕ → Option CString}
    {p : TracerouteEntry} (h : cliTraceroute6 sw newline argv = .ok (some p))
    (hrange : TracerouteRanges (argv 1) (argv 2) (argv 3) (argv 4)) :
    p.words = tracerouteCall "traceroute6".toList (argv 0) (argv 1) (argv 2) (argv 3) (argv 4)
        [] ∧
      p.tracerouteTarget = argv 0 ∧ p.mgmt = (argv 6).isSome ∧ p.vrfN = sw.vrfOf (argv 5) := by
  have hp := foldl_of_decodeAll decodeTracerouteParam_stored h
  simp only [List.foldl_cons, List.foldl_nil] at hp
  have htarget : p.tracerouteTarget = argv 0 := by rw [hp]; rfl
  have hwords := words_eq_tracerouteCall hrange htarget
    (by rw [hp]; exact elim_uint16Of _) (by rw [hp]; exact elim_uint8Of _)
    (by rw [hp]; exact elim_uint32Of _) (by rw [hp]; exact elim_uint8Of _)
  have hipv4 : ¬p.isIpv4 = true := by rw [hp]; exact Bool.false_ne_true
  refine ⟨?_, htarget, ?_, ?_⟩
  · rw [hwords, if_neg hipv4, TracerouteEntry.tool, if_neg hipv4]
    rfl
  · rw [hp]; exact Bool.false_or _
  · rw [hp]; exact elim_vrfOf sw _

/-! ## The calls -/

/-- Accepted arguments of `cli_ping` and `cli_ping6` call the tool, in the namespace asked for and
with the numbers and texts that were typed, if and only if the namespace is entered, the array of
`nwdiag` has room for the parameter string, and no character of the target is an operator. -/
theorem pings_run_iff (sh : Shell) (os : Namespaces) (sw : Switch) (newline : CString)
    (hsw : sw.NamesNamespaces) (argv : ℕ → Option CString)
    (htarget : ∀ target ∈ argv 0, IsTarget target) (hfill : argv 2 ≠ some []) :
    (∀ p, cliPing sw newline argv = .ok (some p) → PingRanges argv →
      (RunsTool sh os (enteredFor (argv 9).isSome (sw.vrfOf (argv 8)))
          (pingCall ((argv 0).any sw.isBroadcast) argv) (pingMain true (some p))
        ↔ os.Enters (argv 9).isSome (namespaceOf (argv 9).isSome (sw.vrfOf (argv 8))) ∧
          p.tool.length + 1 + p.paramLength < buffsize ∧
          ∀ target ∈ argv 0, target.all isWordChar = true)) ∧
    ∀ p, cliPing6 sw newline argv = .ok (some p) → Ping6Ranges argv →
      (RunsTool sh os (enteredFor (argv 6).isSome (sw.vrfOf (argv 5))) (ping6Call argv)
          (pingMain true (some p))
        ↔ os.Enters (argv 6).isSome (namespaceOf (argv 6).isSome (sw.vrfOf (argv 5))) ∧
          p.tool.length + 1 + p.paramLength < buffsize ∧
          ∀ target ∈ argv 0, target.all isWordChar = true) := by
  -- the same for both commands: what is stored is what was typed
  have hruns : ∀ {p : PingEntry}, p.Checked → p.pingTarget = argv 0 → p.pingDataFill = argv 2 →
      (RunsTool sh os (enteredFor p.mgmt p.vrfN) p.words (pingMain true (some p))
        ↔ os.Enters p.mgmt (namespaceOf p.mgmt p.vrfN) ∧
          p.tool.length + 1 + p.paramLength < buffsize ∧
          ∀ target ∈ argv 0, target.all isWordChar = true) := by
    intro p hchecked htargetOf hfillOf
    rw [hchecked.runsTool_iff (htargetOf ▸ htarget) (hfillOf ▸ hfill), htargetOf]
  constructor
  · intro p hp hrange
    obtain ⟨hwords, htargetOf, hfillOf, hmgmt, hvrf⟩ := entry_of_cliPing hp hrange
    have hchecked : p.Checked := PingEntry.checked_of_decodeAll hsw hp
    rw [← hwords, ← hmgmt, ← hvrf]
    exact hruns hchecked htargetOf hfillOf
  · intro p hp hrange
    obtain ⟨hwords, htargetOf, hfillOf, hmgmt, hvrf⟩ := entry_of_cliPing6 hp hrange
    have hchecked : p.Checked := PingEntry.checked_of_decodeAll hsw hp
    rw [← hwords, ← hmgmt, ← hvrf]
    exact hruns hchecked htargetOf hfillOf

/-- The arguments of a command by their places. -/
def argvOf (arguments : List (Option String)) (i : ℕ) : Option CString :=
  (arguments.getD i none).map String.toList

/-- Namespaces that can all be entered. -/
def labNamespaces : Namespaces := ⟨true, fun _ => true⟩

/-- `ping 10.0.0.1 data-fill ab repetitions 3 vrf red` runs; `ping a;reboot` does not run as it
stands. -/
theorem pings_run_iff_lab :
    RunsTool .names labNamespaces (.named "6ba7b810-9dad-11d1-80b4-00c04fd430c8".toList)
        (["ping", "10.0.0.1", "-c", "3", "-s", "100", "-p", "ab", "-W", "2"].map String.toList)
        (pingMain true (some { labPing with pingRepetitions := 3 })) ∧
      ¬RunsTool .names labNamespaces (.named "swns".toList)
        (["ping", "a;reboot", "-c", "5", "-s", "100", "-W", "2"].map String.toList)
        (pingMain true (some (targetPing "a;reboot".toList none))) := by
  have hping := fun argv htarget hfill => (pings_run_iff .names labNamespaces labSwitch "\n".toList
    labSwitch_namesNamespaces argv htarget hfill).1
  constructor
  · refine (hping (argvOf [some "10.0.0.1", none, some "ab", some "3", none, none, none, none,
      some "red"]) (by decide +kernel) (by decide +kernel)
      { labPing with pingRepetitions := 3 } (by decide +kernel) ?_).mpr (by decide +kernel)
    exact ⟨by decide +kernel, by decide +kernel, by decide +kernel, by decide +kernel,
      by decide +kernel⟩
  · refine fun h => absurd ((hping (argvOf [some "a;reboot"]) (by decide +kernel)
      (by decide +kernel) (targetPing "a;reboot".toList none) (by decide +kernel) ?_).mp h)
      (by decide +kernel)
    exact ⟨by decide +kernel, by decide +kernel, by decide +kernel, by decide +kernel,
      by decide +kernel⟩

/-- Accepted arguments of the commands for `traceroute` call the tool, in the namespace asked for
and with the numbers and texts that were typed, if and only if the namespace is entered and no
character of the target is an operator. The first TTL is not above the last one. -/
theorem traceroutes_run_iff (sh : Shell) (os : Namespaces) (sw : Switch) (newline : CString)
    (hsw : sw.NamesNamespaces) (argv : ℕ → Option CString)
    (htarget : ∀ target ∈ argv 0, IsTarget target) :
    (∀ p, cliTraceroute sw newline argv = .ok (some p) →
      TracerouteRanges (argv 1) (argv 2) (argv 4) (argv 5) → InRange 1 255 (argv 3) →
      numberOf 1 (argv 3) ≤ numberOf 30 (argv 2) ∧
      (RunsTool sh os (enteredFor (argv 7).isSome (sw.vrfOf (argv 6)))
          (tracerouteCall "traceroute".toList (argv 0) (argv 1) (argv 2) (argv 4) (argv 5)
            (tracerouteIpv4 (argv 3) none)) (tracerouteHandler true (some p))
        ↔ os.Enters (argv 7).isSome (namespaceOf (argv 7).isSome (sw.vrfOf (argv 6))) ∧
          ∀ target ∈ argv 0, target.all isWordChar = true)) ∧
    (∀ p, cliTracerouteIpoption sw newline argv = .ok (some p) →
      TracerouteRanges (argv 2) (argv 3) (argv 5) (argv 6) → InRange 1 255 (argv 4) →
      numberOf 1 (argv 4) ≤ numberOf 30 (argv 3) ∧
      (RunsTool sh os (enteredFor false [])
          (tracerouteCall "traceroute".toList (argv 0) (argv 2) (argv 3) (argv 5) (argv 6)
            (tracerouteIpv4 (argv 4) (argv 1))) (tracerouteHandler true (some p))
        ↔ os.Enters false (namespaceOf false []) ∧
          ∀ target ∈ argv 0, target.all isWordChar = true)) ∧
    ∀ p, cliTraceroute6 sw newline argv = .ok (some p) →
      TracerouteRanges (argv 1) (argv 2) (argv 3) (argv 4) →
      (RunsTool sh os (enteredFor (argv 6).isSome (sw.vrfOf (argv 5)))
          (tracerouteCall "traceroute6".toList (argv 0) (argv 1) (argv 2) (argv 3) (argv 4) [])
          (tracerouteHandler true (some p))
        ↔ os.Enters (argv 6).isSome (namespaceOf (argv 6).isSome (sw.vrfOf (argv 5))) ∧
          ∀ target ∈ argv 0, target.all isWordChar = true) := by
  -- the line of traceroute always fits, so the length is no condition
  have hruns : ∀ {p : TracerouteEntry}, p.Checked → p.tracerouteTarget = argv 0 →
      (RunsTool sh os (enteredFor p.mgmt p.vrfN) p.words (tracerouteHandler true (some p))
        ↔ os.Enters p.mgmt (namespaceOf p.mgmt p.vrfN) ∧
          ∀ target ∈ argv 0, target.all isWordChar = true) := by
    intro p hchecked htargetOf
    rw [hchecked.runsTool_iff (htargetOf ▸ htarget), htargetOf]
  refine ⟨?_, ?_, ?_⟩
  · intro p hp hrange hminttl
    obtain ⟨hwords, hle, htargetOf, hmgmt, hvrf⟩ := entry_of_cliTraceroute hp hrange hminttl
    rw [← hwords, ← hmgmt, ← hvrf]
    exact ⟨hle, hruns (checked_of_decodeTraceroute hsw hp) htargetOf⟩
  · intro p hp hrange hminttl
    obtain ⟨hwords, hle, htargetOf, hmgmt, hvrf⟩ :=
      entry_of_cliTracerouteIpoption hp hrange hminttl
    rw [← hwords, ← hmgmt, ← hvrf]
    exact ⟨hle, hruns (checked_of_decodeTraceroute hsw hp) htargetOf⟩
  · intro p hp hrange
    obtain ⟨hwords, htargetOf, hmgmt, hvrf⟩ := entry_of_cliTraceroute6 hp hrange
    have hchecked : p.Checked := TracerouteEntry.checked_of_decodeAll hsw hp
    rw [← hwords, ← hmgmt, ← hvrf]
    exact hruns hchecked htargetOf

/-- `traceroute6 host-1 maxttl 9 mgmt` runs. -/
theorem traceroutes_run_iff_lab :
    RunsTool .names labNamespaces .oobm
      (["traceroute6", "host-1", "-p", "33434", "-m", "9", "-q", "3", "-w", "3"].map String.toList)
      (tracerouteHandler true (some { labTraceroute with tracerouteMaxttl := 9 })) := by
  refine ((traceroutes_run_iff .names labNamespaces labSwitch "\n".toList
    labSwitch_namesNamespaces
    (argvOf [some "host-1", none, some "9", none, none, none, some "mgmt"])
    (by decide +kernel)).2.2 { labTraceroute with tracerouteMaxttl := 9 } (by decide +kernel)
    ?_).mpr (by decide +kernel)
  exact ⟨by decide +kernel, by decide +kernel, by decide +kernel, by decide +kernel⟩

end Diagtools
end IpApps
