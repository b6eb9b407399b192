import IpApps.Ovsdb
import Mathlib.Data.List.Nodup

/-!
# The selection of the source interface

`source_interface_selection_vty.c`: a protocol has a source IP, in one column of the VRF row, or
a source interface, in another. Each command edits one column and cleans the other.

`set_source_interface` appends a pair for the protocol also where there is one already, and
leaves it to the database which of the two is kept. `source_of_run` says that apart from this
the last command on a protocol wins.
-/

namespace IpApps
namespace SourceInterface

/-! ## The VRF row -/

/-- `SOURCE_INTERFACE_PROTOCOL`. -/
inductive SourceInterfaceProtocol
  | tftp
  | tacacs
  | radius
  | all
  deriving DecidableEq, Repr

/-- `CONFIG_TYPE`; `SOURCE_MAX` stands for no configuration. -/
inductive ConfigType
  | sourceIp
  | sourceInterface
  | sourceMax
  deriving DecidableEq, Repr

/-- `protoSource`. -/
structure ProtoSource where
  source : Option CString
  configType : ConfigType
  deriving DecidableEq, Repr

/-- A row of the Port table. -/
structure PortRow where
  name : CString
  ip4Address : Option CString
  ip4AddressSecondary : List CString

/-- The columns of the VRF row: `source_ip`, and the parallel lists of `source_interface`, where
a port stands by its name. -/
structure VrfRow where
  sourceIp : SMap CString
  sourceInterface : List (CString × CString)

/-- A row without source settings. -/
def VrfRow.empty : VrfRow := ⟨.empty, []⟩

section read

-- the keys are macros of the database schema
variable (protocolKeys : SourceInterfaceProtocol → CString)

/-- The comparison the loops over the pairs make. -/
def keyMatches (key : CString) (pair : CString × CString) : Bool :=
  Libc.strncmp key pair.1 key.length = 0

/-- `get_configured_protocol_source_local`, on the row that `vrf_lookup` finds. -/
def getConfiguredProtocolSourceLocal (type : SourceInterfaceProtocol) (vrfRow : Option VrfRow) :
    Bool × ProtoSource :=
  match vrfRow with
  | none => (false, ⟨none, .sourceMax⟩)
  | some row =>
    -- source-ip configuration is given priority over source-interface
    match row.sourceIp (protocolKeys type) with
    | some source => (true, ⟨some source, .sourceIp⟩)
    | none =>
      match row.sourceInterface.find? (keyMatches (protocolKeys type)) with
      | some pair => (true, ⟨some pair.2, .sourceInterface⟩)
      | none => (false, ⟨none, .sourceMax⟩)

/-- `get_protocol_source_local`, which reads the row of the default VRF. -/
def getProtocolSourceLocal (type : SourceInterfaceProtocol) (vrfRow : Option VrfRow) :
    Bool × ProtoSource :=
  let configured := getConfiguredProtocolSourceLocal protocolKeys type vrfRow
  if configured.1 then configured
  else if type ≠ .all then getConfiguredProtocolSourceLocal protocolKeys .all vrfRow
  else configured

/-- `source_interface_lookup`. -/
def sourceInterfaceLookup (key : CString) (row : VrfRow) : Bool :=
  row.sourceInterface.any (keyMatches key)

end read

/-! ## Addresses and ports -/

/-- Whether a source IP starts with an address of the database, up to its mask. -/
def addressMatches (source address : CString) : Bool :=
  let maskPosition :=
    match address.idxOf? '/' with
    | some position => position
    -- the distance from the null pointer is longer than both strings
    | none => max source.length address.length + 1
  Libc.strncmp source address maskPosition = 0

/-- `isIpConfigured`: secondary addresses count where there is no primary one. -/
def isIpConfigured (ports : List PortRow) (source : CString) : Bool :=
  ports.any fun port =>
    match port.ip4Address with
    | some address => addressMatches source address
    | none => port.ip4AddressSecondary.any (addressMatches source)

/-- `getPort`: the first port with an address whose name starts with the name of the
interface. -/
def getPort (ports : List PortRow) (ifName : CString) : Option PortRow :=
  ports.find? fun port =>
    Libc.strncmp ifName port.name ifName.length = 0 ∧
      (port.ip4Address.isSome ∨ 1 ≤ port.ip4AddressSecondary.length)

/-! ## Editing the columns -/

/-- `update_protocol_source_ip`: the map it sets. -/
def updateProtocolSourceIp (row : VrfRow) (source : CString) (key : CString) (add : Bool) :
    SMap CString :=
  if add then smapReplace row.sourceIp key source else smapRemove row.sourceIp key

/-- What `ovsrec_vrf_set_source_interface` is given: the entries the loop has written, and how
many there should be. -/
structure SourceInterfaceLists where
  pairs : List (CString × CString)
  nSources : ℕ

/-- `update_protocol_source_interface` with `add`. -/
def addSourceInterface (row : VrfRow) (port : PortRow) (key : CString) : SourceInterfaceLists :=
  ⟨row.sourceInterface ++ [(key, port.name)], row.sourceInterface.length + 1⟩

/-- `update_protocol_source_interface` without `add`. -/
def removeSourceInterface (row : VrfRow) (key : CString) : SourceInterfaceLists :=
  if row.sourceInterface.length = 1 then ⟨[], 0⟩
  else ⟨row.sourceInterface.filter fun pair => !keyMatches key pair,
    row.sourceInterface.length - 1⟩

/-- What a transaction writes, column by column. -/
structure Written where
  sourceIp : Option (SMap CString)
  sourceInterface : Option SourceInterfaceLists

/-- The pairs the database takes from the lists. -/
def SourceInterfaceLists.given (lists : SourceInterfaceLists) : List (CString × CString) :=
  lists.pairs.take lists.nSources

/-- The database stores the given pairs, and keeps one where a key is repeated. -/
structure Stored (given stored : List (CString × CString)) : Prop where
  subset : stored ⊆ given
  nodup : (stored.map Prod.fst).Nodup
  keys : ∀ pair ∈ given, pair.1 ∈ stored.map Prod.fst

/-- A row after a transaction. -/
structure Commits (row : VrfRow) (written : Written) (row' : VrfRow) : Prop where
  sourceIp : row'.sourceIp = written.sourceIp.getD row.sourceIp
  unchanged : written.sourceInterface = none → row'.sourceInterface = row.sourceInterface
  stored : ∀ lists, written.sourceInterface = some lists →
    Stored lists.given row'.sourceInterface

/-! ## The commands -/

/-- How a command ends: what it prints, what it returns, and what it has committed. -/
structure Outcome where
  out : Option String
  result : CmdResult
  written : Option Written

/-- The transaction and the default VRF around the body of a command. -/
def withDefaultVrf (txn : Txn) (vrfRow : Option VrfRow) (body : VrfRow → Outcome) : Outcome :=
  if ¬ txn.created then ⟨none, .ovsdbFailure, none⟩
  else
    match vrfRow with
    | none => ⟨some "Error: Could not fetch default VRF data.", .ovsdbFailure, none⟩
    | some row => body row

/-- `cli_do_config_finish`. -/
def finish (txn : Txn) (out : Option String) (written : Written) : Outcome :=
  if txn.committed then ⟨out, .success, some written⟩ else ⟨out, .ovsdbFailure, none⟩

section commands

variable (protocolKeys : SourceInterfaceProtocol → CString) (txn : Txn)

/-- `set_source_ip`. -/
def setSourceIp (ports : List PortRow) (source : CString) (type : SourceInterfaceProtocol)
    (vrfRow : Option VrfRow) : Outcome :=
  withDefaultVrf txn vrfRow fun row =>
    if ¬ isIpConfigured ports source then
      ⟨some "Specified IP address is not configured on any interface.", .success, none⟩
    else
      finish txn none
        { sourceIp := some (updateProtocolSourceIp row source (protocolKeys type) true)
          sourceInterface :=
            if sourceInterfaceLookup (protocolKeys type) row then
              some (removeSourceInterface row (protocolKeys type))
            else none }

/-- `set_source_interface`. -/
def setSourceInterface (ports : List PortRow) (source : CString) (type : SourceInterfaceProtocol)
    (vrfRow : Option VrfRow) : Outcome :=
  withDefaultVrf txn vrfRow fun row =>
    match getPort ports source with
    | none =>
      ⟨some "No IP address is configured on the specified interface.", .success, none⟩
    | some port =>
      finish txn none
        { sourceIp :=
            if (row.sourceIp (protocolKeys type)).isSome then
              some (updateProtocolSourceIp row source (protocolKeys type) false)
            else none
          sourceInterface := some (addSourceInterface row port (protocolKeys type)) }

/-- The `error_message` of `reset_source_interface`. -/
def resetErrorMessage : SourceInterfaceProtocol → String
  | .all => "Common source interface is not configured."
  | .tftp => "TFTP Source interface is not configured."
  | .tacacs => "TACACS Source interface is not configured."
  | .radius => "RADIUS Source interface is not configured."

/-- `reset_source_interface`. -/
def resetSourceInterface (type : SourceInterfaceProtocol) (vrfRow : Option VrfRow) : Outcome :=
  withDefaultVrf txn vrfRow fun row =>
    let buff := row.sourceIp (protocolKeys type)
    let sourceInterfaceMatch := sourceInterfaceLookup (protocolKeys type) row
    finish txn
      (if buff = none ∧ ¬ sourceInterfaceMatch then some (resetErrorMessage type) else none)
      { sourceIp :=
          if buff.isSome then some (updateProtocolSourceIp row [] (protocolKeys type) false)
          else none
        sourceInterface :=
          if sourceInterfaceMatch then some (removeSourceInterface row (protocolKeys type))
          else none }

/-- The commands, with the ports there are when they are given. -/
inductive Command
  | setSourceIp (ports : List PortRow) (source : CString)
  | setSourceInterface (ports : List PortRow) (source : CString)
  | resetSourceInterface

/-- Runs a command on a protocol. -/
def Command.exec (command : Command) (type : SourceInterfaceProtocol) (vrfRow : Option VrfRow) :
    Outcome :=
  match command with
  | .setSourceIp ports source =>
    SourceInterface.setSourceIp protocolKeys txn ports source type vrfRow
  | .setSourceInterface ports source =>
    SourceInterface.setSourceInterface protocolKeys txn ports source type vrfRow
  | .resetSourceInterface => SourceInterface.resetSourceInterface protocolKeys txn type vrfRow

end commands

/-! ## Last writer wins -/

/-- What a command sets for its protocol. -/
inductive Setting
  | ip (source : CString)
  | interface (name : CString)
  deriving DecidableEq, Repr

/-- The source IP of a setting. -/
def Setting.source : Option Setting → Option CString
  | some (.ip source) => some source
  | _ => none

/-- How a setting is read back. -/
def Setting.shown : Option Setting → Bool × ProtoSource
  | some (.ip source) => (true, ⟨some source, .sourceIp⟩)
  | some (.interface name) => (true, ⟨some name, .sourceInterface⟩)
  | none => (false, ⟨none, .sourceMax⟩)

/-- What a command leaves set: its IP, the name of its port, or nothing. -/
def Command.setting : Command → Option Setting
  | .setSourceIp _ source => some (.ip source)
  | .setSourceInterface ports source =>
    (getPort ports source).map fun port => .interface port.name
  | .resetSourceInterface => none

section runs

variable (protocolKeys : SourceInterfaceProtocol → CString)

/-- The rows that accepted commands lead to from a row without settings, with what the last
command on each protocol set. -/
inductive Run (allowed : VrfRow → SourceInterfaceProtocol → Command → Prop) :
    VrfRow → (SourceInterfaceProtocol → Option Setting) → Prop
  | empty : Run allowed .empty fun _ => none
  | exec {row row' : VrfRow} {last : SourceInterfaceProtocol → Option Setting} {txn : Txn}
      {type : SourceInterfaceProtocol} {command : Command} {written : Written}
      (h : Run allowed row last) (hallowed : allowed row type command)
      (hexec : (command.exec protocolKeys txn type (some row)).written = some written)
      (hcommits : Commits row written row') :
      Run allowed row' (Function.update last type command.setting)

/-- The row has no other port for the protocol than the one that is set. -/
def NoOtherPort (row : VrfRow) (type : SourceInterfaceProtocol) (command : Command) : Prop :=
  ∀ name, command.setting = some (.interface name) →
    ∀ pair ∈ row.sourceInterface, pair.1 = protocolKeys type → pair.2 = name

/-- The pairs of a row: a protocol has one at most. -/
structure VrfRow.WellFormed (row : VrfRow) : Prop where
  known : ∀ pair ∈ row.sourceInterface, ∃ p, pair.1 = protocolKeys p
  nodup : (row.sourceInterface.map Prod.fst).Nodup

/-- The columns hold a setting of a protocol. -/
structure Holds (row : VrfRow) (p : SourceInterfaceProtocol) (setting : Option Setting) :
    Prop where
  source : row.sourceIp (protocolKeys p) = Setting.source setting
  interface : ∀ name, (protocolKeys p, name) ∈ row.sourceInterface ↔
    setting = some (.interface name)

end runs

section pairs

variable {protocolKeys : SourceInterfaceProtocol → CString} {row : VrfRow}

/-- No key is the beginning of another. -/
def PrefixFree (protocolKeys : SourceInterfaceProtocol → CString) : Prop :=
  ∀ p q, protocolKeys p <+: protocolKeys q → p = q

theorem PrefixFree.inj (hkeys : PrefixFree protocolKeys) {p q : SourceInterfaceProtocol}
    (h : protocolKeys p = protocolKeys q) : p = q :=
  hkeys p q (h ▸ List.prefix_rfl)

/-- Among the pairs of a row the comparison finds the key itself. -/
theorem keyMatches_iff (hkeys : PrefixFree protocolKeys) (hrow : row.WellFormed protocolKeys)
    {p : SourceInterfaceProtocol} {pair : CString × CString} (h : pair ∈ row.sourceInterface) :
    keyMatches (protocolKeys p) pair = true ↔ pair.1 = protocolKeys p := by
  unfold keyMatches
  rw [decide_eq_true_iff, Libc.strncmp_length_eq_zero_iff]
  obtain ⟨q, hq⟩ := hrow.known pair h
  rw [hq]
  constructor
  · intro hprefix
    rw [hkeys p q hprefix]
  · intro heq
    exact heq ▸ List.prefix_rfl

theorem sourceInterfaceLookup_iff (hkeys : PrefixFree protocolKeys)
    (hrow : row.WellFormed protocolKeys) (p : SourceInterfaceProtocol) :
    sourceInterfaceLookup (protocolKeys p) row = true ↔
      ∃ name, (protocolKeys p, name) ∈ row.sourceInterface := by
  unfold sourceInterfaceLookup
  rw [List.any_eq_true]
  constructor
  · rintro ⟨pair, hpair, hmatch⟩
    have hkey := (keyMatches_iff hkeys hrow hpair).mp hmatch
    exact ⟨pair.2, by rw [← hkey]; exact hpair⟩
  · rintro ⟨name, hname⟩
    exact ⟨_, hname, (keyMatches_iff hkeys hrow hname).mpr rfl⟩

/-- A key has one value. -/
theorem VrfRow.WellFormed.eq_of_key (hrow : row.WellFormed protocolKeys)
    {pair other : CString × CString} (h : pair ∈ row.sourceInterface)
    (hother : other ∈ row.sourceInterface) (hkey : pair.1 = other.1) : pair = other :=
  List.inj_on_of_nodup_map hrow.nodup h hother hkey

/-- The pair that a lookup finds is that of the protocol. -/
theorem find_pair_iff (hkeys : PrefixFree protocolKeys) (hrow : row.WellFormed protocolKeys)
    (p : SourceInterfaceProtocol) (pair : CString × CString) :
    row.sourceInterface.find? (keyMatches (protocolKeys p)) = some pair ↔
      pair ∈ row.sourceInterface ∧ pair.1 = protocolKeys p := by
  constructor
  · intro hfound
    have hpair := List.mem_of_find?_eq_some hfound
    exact ⟨hpair, (keyMatches_iff hkeys hrow hpair).mp (List.find?_some hfound)⟩
  · rintro ⟨hpair, hkey⟩
    have hmatch := (keyMatches_iff hkeys hrow hpair).mpr hkey
    cases hfound : row.sourceInterface.find? (keyMatches (protocolKeys p)) with
    | none => exact absurd hmatch (List.find?_eq_none.mp hfound pair hpair)
    | some other =>
      have hother := List.mem_of_find?_eq_some hfound
      have hkey' := (keyMatches_iff hkeys hrow hother).mp (List.find?_some hfound)
      rw [hrow.eq_of_key hother hpair (hkey'.trans hkey.symm)]

/-- Where a key is found, the loop that removes it fills its lists exactly. -/
theorem removeSourceInterface_given (hkeys : PrefixFree protocolKeys)
    (hrow : row.WellFormed protocolKeys) {p : SourceInterfaceProtocol} {name : CString}
    (h : (protocolKeys p, name) ∈ row.sourceInterface) :
    (removeSourceInterface row (protocolKeys p)).given
      = row.sourceInterface.filter fun pair => pair.1 ≠ protocolKeys p := by
  have hnodup : row.sourceInterface.Nodup := hrow.nodup.of_map
  have hfilter : (row.sourceInterface.filter fun pair => !keyMatches (protocolKeys p) pair)
      = row.sourceInterface.filter fun pair => pair.1 ≠ protocolKeys p := by
    apply List.filter_congr
    intro pair hpair
    have hmatch : keyMatches (protocolKeys p) pair = decide (pair.1 = protocolKeys p) := by
      rw [Bool.eq_iff_iff, keyMatches_iff hkeys hrow hpair, decide_eq_true_iff]
    rw [hmatch, decide_not]
  have herase : (row.sourceInterface.filter fun pair => pair.1 ≠ protocolKeys p)
      = row.sourceInterface.erase (protocolKeys p, name) := by
    rw [hnodup.erase_eq_filter]
    apply List.filter_congr
    intro pair hpair
    have hiff : pair.1 = protocolKeys p ↔ pair = (protocolKeys p, name) :=
      ⟨fun hkey => hrow.eq_of_key hpair h hkey, fun heq => by rw [heq]⟩
    rw [decide_not, decide_eq_decide.mpr hiff, bne, beq_eq_decide]
  have hlength := List.length_erase_of_mem h
  unfold removeSourceInterface SourceInterfaceLists.given
  split
  · rename_i hone
    rw [hone] at hlength
    rw [List.take_zero, herase, List.length_eq_zero_iff.mp hlength]
  · show List.take _ (List.filter _ _) = _
    rw [hfilter, herase, ← hlength, List.take_length]

/-- What is stored for a key with one value. -/
theorem Stored.mem_iff {given stored : List (CString × CString)} (h : Stored given stored)
    {key : CString}
    (hunique : ∀ pair ∈ given, ∀ other ∈ given, pair.1 = key → other.1 = key → pair = other)
    (name : CString) : (key, name) ∈ stored ↔ (key, name) ∈ given := by
  constructor
  · exact fun hstored => h.subset hstored
  · intro hgiven
    obtain ⟨pair, hpair, hkey⟩ := List.mem_map.mp (h.keys _ hgiven)
    rw [hunique _ hgiven pair (h.subset hpair) rfl hkey]
    exact hpair

end pairs

section effect

variable {protocolKeys : SourceInterfaceProtocol → CString} {row row' : VrfRow}

/-- The setting that the columns hold is read back. -/
theorem Holds.configured (hkeys : PrefixFree protocolKeys) (hrow : row.WellFormed protocolKeys)
    {p : SourceInterfaceProtocol} {setting : Option Setting}
    (h : Holds protocolKeys row p setting) :
    getConfiguredProtocolSourceLocal protocolKeys p (some row) = Setting.shown setting := by
  have hsource := h.source
  unfold getConfiguredProtocolSourceLocal
  rcases setting with - | source | name
  · have hfind : row.sourceInterface.find? (keyMatches (protocolKeys p)) = none := by
      cases hfound : row.sourceInterface.find? (keyMatches (protocolKeys p)) with
      | none => rfl
      | some pair =>
        obtain ⟨hpair, hkey⟩ := (find_pair_iff hkeys hrow p pair).mp hfound
        have hmem : (protocolKeys p, pair.2) ∈ row.sourceInterface := by
          rw [← hkey]
          exact hpair
        exact absurd ((h.interface pair.2).mp hmem) (by simp)
    simp only [hsource, Setting.source, hfind, Setting.shown]
  · simp only [hsource, Setting.source, Setting.shown]
  · have hfind := (find_pair_iff hkeys hrow p (protocolKeys p, name)).mpr
      ⟨(h.interface name).mpr rfl, rfl⟩
    simp only [hsource, Setting.source, hfind, Setting.shown]

/-- The pairs after a command: those of the other protocols are as before, and the protocol
has what was set, if it had no other port. -/
structure Effect (protocolKeys : SourceInterfaceProtocol → CString) (row : VrfRow)
    (type : SourceInterfaceProtocol) (command : Command) (row' : VrfRow) : Prop where
  wellFormed : row'.WellFormed protocolKeys
  other : ∀ p ≠ type, ∀ setting, Holds protocolKeys row p setting →
    Holds protocolKeys row' p setting
  set : NoOtherPort protocolKeys row type command →
    Holds protocolKeys row' type command.setting

/-- A row whose pairs of the protocol have been removed. -/
theorem effect_removed (hkeys : PrefixFree protocolKeys) (hrow : row.WellFormed protocolKeys)
    {type : SourceInterfaceProtocol} {command : Command}
    (hsource : ∀ key, row'.sourceIp key
      = if key = protocolKeys type then Setting.source command.setting else row.sourceIp key)
    (hno : ∀ name, command.setting ≠ some (.interface name))
    (hnodup : (row'.sourceInterface.map Prod.fst).Nodup)
    (hmem : ∀ pair, pair ∈ row'.sourceInterface ↔
      pair ∈ row.sourceInterface ∧ pair.1 ≠ protocolKeys type) :
    Effect protocolKeys row type command row' where
  wellFormed := ⟨fun pair hpair => hrow.known pair ((hmem pair).mp hpair).1, hnodup⟩
  other := by
    intro p hp setting hholds
    have hne : protocolKeys p ≠ protocolKeys type := fun heq => hp (hkeys.inj heq)
    constructor
    · rw [hsource, if_neg hne, hholds.source]
    · intro name
      rw [hmem, ← hholds.interface]
      simp only [ne_eq, hne, not_false_eq_true, and_true]
  set := by
    intro _
    constructor
    · rw [hsource, if_pos rfl]
    · intro name
      rw [hmem]
      simp only [ne_eq, not_true_eq_false, and_false, false_iff]
      exact hno name

/-- A row that has got a pair for the protocol. -/
theorem effect_added (hkeys : PrefixFree protocolKeys) (hrow : row.WellFormed protocolKeys)
    {type : SourceInterfaceProtocol} {command : Command} {name : CString}
    (hset : command.setting = some (.interface name))
    (hsource : ∀ key, row'.sourceIp key
      = if key = protocolKeys type then none else row.sourceIp key)
    (hstored : Stored (row.sourceInterface ++ [(protocolKeys type, name)])
      row'.sourceInterface) :
    Effect protocolKeys row type command row' where
  wellFormed := by
    constructor
    · intro pair hpair
      rcases List.mem_append.mp (hstored.subset hpair) with hold | hnew
      · exact hrow.known pair hold
      · exact ⟨type, by rw [List.mem_singleton.mp hnew]⟩
    · exact hstored.nodup
  other := by
    intro p hp setting hholds
    have hne : protocolKeys p ≠ protocolKeys type := fun heq => hp (hkeys.inj heq)
    have hold {pair : CString × CString} (hkey : pair.1 = protocolKeys p) :
        pair ∈ row.sourceInterface ++ [(protocolKeys type, name)] ↔
          pair ∈ row.sourceInterface := by
      rw [List.mem_append, List.mem_singleton]
      refine or_iff_left fun heq => hne ?_
      rw [← hkey, heq]
    constructor
    · rw [hsource, if_neg hne, hholds.source]
    · intro name'
      rw [hstored.mem_iff, hold rfl, hholds.interface]
      intro pair hpair other hother hkey hkey'
      exact hrow.eq_of_key ((hold hkey).mp hpair) ((hold hkey').mp hother)
        (hkey.trans hkey'.symm)
  set := by
    intro hallowed
    -- an earlier pair of the protocol names the same interface
    have hvalue : ∀ pair ∈ row.sourceInterface ++ [(protocolKeys type, name)],
        pair.1 = protocolKeys type → pair = (protocolKeys type, name) := by
      intro pair hpair hkey
      rcases List.mem_append.mp hpair with hold | hnew
      · exact Prod.ext hkey (hallowed name hset pair hold hkey)
      · exact List.mem_singleton.mp hnew
    constructor
    · rw [hsource, if_pos rfl, hset]
      rfl
    · intro name'
      rw [hstored.mem_iff, hset]
      · constructor
        · intro hmem
          rw [(Prod.mk.inj (hvalue _ hmem rfl)).2]
        · intro heq
          rw [(Setting.interface.inj (Option.some.inj heq))]
          exact List.mem_append_right _ (List.mem_singleton_self _)
      · intro pair hpair other hother hkey hkey'
        rw [hvalue pair hpair hkey, hvalue other hother hkey']

/-- What an accepted command has written. -/
theorem withDefaultVrf_written {txn : Txn} {body : VrfRow → Outcome} {written : Written}
    (h : (withDefaultVrf txn (some row) body).written = some written) :
    (body row).written = some written := by
  unfold withDefaultVrf at h
  split at h
  · exact absurd h (by simp)
  · exact h

theorem finish_written {txn : Txn} {out : Option String} {writing written : Written}
    (h : (finish txn out writing).written = some written) : written = writing := by
  unfold finish at h
  split at h
  · exact (Option.some.inj h).symm
  · exact absurd h (by simp)

/-- The source IPs after the one of a key has been removed, if there was one. -/
theorem removed_sourceIp {written : Written} {source key : CString}
    (hcommits : Commits row written row')
    (hwritten : written.sourceIp = if (row.sourceIp key).isSome then
      some (updateProtocolSourceIp row source key false) else none) (other : CString) :
    row'.sourceIp other = if other = key then none else row.sourceIp other := by
  rw [hcommits.sourceIp, hwritten]
  split
  · show smapRemove row.sourceIp key other = _
    rw [smapRemove_apply]
  · rename_i hnone
    split
    · rename_i heq
      rw [heq]
      exact Option.not_isSome_iff_eq_none.mp hnone
    · rfl

/-- The pairs after those of a key have been removed, if there was one. -/
theorem removed_sourceInterface (hkeys : PrefixFree protocolKeys)
    (hrow : row.WellFormed protocolKeys) {type : SourceInterfaceProtocol} {written : Written}
    (hcommits : Commits row written row')
    (hwritten : written.sourceInterface = if sourceInterfaceLookup (protocolKeys type) row then
      some (removeSourceInterface row (protocolKeys type)) else none) :
    (row'.sourceInterface.map Prod.fst).Nodup ∧
      ∀ pair, pair ∈ row'.sourceInterface ↔
        pair ∈ row.sourceInterface ∧ pair.1 ≠ protocolKeys type := by
  cases hlookup : sourceInterfaceLookup (protocolKeys type) row with
  | false =>
    rw [hlookup] at hwritten
    rw [hcommits.unchanged hwritten]
    refine ⟨hrow.nodup, fun pair => (and_iff_left_of_imp ?_).symm⟩
    intro hpair hkey
    have hfound := (sourceInterfaceLookup_iff hkeys hrow type).mpr
      ⟨pair.2, by rw [← hkey]; exact hpair⟩
    rw [hlookup] at hfound
    exact absurd hfound (by simp)
  | true =>
    rw [hlookup, if_pos rfl] at hwritten
    obtain ⟨name, hname⟩ := (sourceInterfaceLookup_iff hkeys hrow type).mp hlookup
    have hstored := hcommits.stored _ hwritten
    rw [removeSourceInterface_given hkeys hrow hname] at hstored
    have hsub : ∀ pair, pair ∈ row.sourceInterface.filter (fun pair => pair.1 ≠ protocolKeys type)
        ↔ pair ∈ row.sourceInterface ∧ pair.1 ≠ protocolKeys type := by
      intro pair
      rw [List.mem_filter, decide_eq_true_iff]
    refine ⟨hstored.nodup, fun pair => ?_⟩
    rw [← hsub, hstored.mem_iff]
    intro pair hpair other hother hkey hkey'
    exact hrow.eq_of_key ((hsub _).mp hpair).1 ((hsub _).mp hother).1 (hkey.trans hkey'.symm)

/-- What an accepted command does to the row. -/
theorem exec_effect (hkeys : PrefixFree protocolKeys) (hrow : row.WellFormed protocolKeys)
    {txn : Txn} {type : SourceInterfaceProtocol} {command : Command} {written : Written}
    (hexec : (command.exec protocolKeys txn type (some row)).written = some written)
    (hcommits : Commits row written row') : Effect protocolKeys row type command row' := by
  cases command with
  | setSourceIp ports source =>
    unfold Command.exec setSourceIp at hexec
    have hbody := withDefaultVrf_written hexec
    split at hbody
    · exact absurd hbody (by simp)
    · have hwritten := finish_written hbody
      obtain ⟨hnodup, hmem⟩ := removed_sourceInterface hkeys hrow hcommits (by rw [hwritten])
      apply effect_removed hkeys hrow _ (fun name => by simp [Command.setting]) hnodup hmem
      intro key
      rw [hcommits.sourceIp, hwritten]
      show smapReplace row.sourceIp (protocolKeys type) source key = _
      rw [smapReplace_apply]
      rfl
  | setSourceInterface ports source =>
    unfold Command.exec setSourceInterface at hexec
    have hbody := withDefaultVrf_written hexec
    cases hport : getPort ports source with
    | none =>
      rw [hport] at hbody
      exact absurd hbody (by simp)
    | some port =>
      rw [hport] at hbody
      have hwritten := finish_written hbody
      have hset : (Command.setSourceInterface ports source).setting
          = some (.interface port.name) := by
        show (getPort ports source).map _ = _
        rw [hport, Option.map_some]
      have hstored := hcommits.stored _ (by rw [hwritten])
      apply effect_added hkeys hrow hset (removed_sourceIp hcommits (by rw [hwritten]))
      unfold addSourceInterface SourceInterfaceLists.given at hstored
      rw [List.take_of_length_le (by simp)] at hstored
      exact hstored
  | resetSourceInterface =>
    unfold Command.exec resetSourceInterface at hexec
    have hbody := withDefaultVrf_written hexec
    have hwritten := finish_written hbody
    obtain ⟨hnodup, hmem⟩ := removed_sourceInterface hkeys hrow hcommits (by rw [hwritten])
    exact effect_removed hkeys hrow (removed_sourceIp hcommits (by rw [hwritten])) nofun hnodup hmem

/-- The row a run leads to is well formed and holds what was set last. -/
theorem Run.holds (hkeys : PrefixFree protocolKeys)
    {last : SourceInterfaceProtocol → Option Setting}
    (h : Run protocolKeys (NoOtherPort protocolKeys) row last) :
    row.WellFormed protocolKeys ∧ ∀ p, Holds protocolKeys row p (last p) := by
  induction h with
  | empty =>
    refine ⟨⟨nofun, List.nodup_nil⟩, fun p => ⟨rfl, fun name => ?_⟩⟩
    simp [VrfRow.empty]
  | @exec row row' last txn type command written h hallowed hexec hcommits ih =>
    obtain ⟨hrow, hholds⟩ := ih
    have heffect := exec_effect hkeys hrow hexec hcommits
    refine ⟨heffect.wellFormed, fun p => ?_⟩
    by_cases hp : p = type
    · rw [hp, Function.update_self]
      exact heffect.set hallowed
    · rw [Function.update_of_ne hp]
      exact heffect.other p hp _ (hholds p)

end effect

/-- Keys as in the words of the commands. -/
def commandKeys : SourceInterfaceProtocol → CString
  | .tftp => "tftp".toList
  | .tacacs => "tacacs".toList
  | .radius => "radius".toList
  | .all => "all".toList

theorem commandKeys_prefixFree : PrefixFree commandKeys := by
  intro p q
  cases p <;> cases q <;> decide

/-- Two ports with an address. -/
def twoPorts : List PortRow :=
  [⟨['1'], some "1.1.1.1/24".toList, []⟩, ⟨['2'], some "2.2.2.2/24".toList, []⟩]

/-- The row with port 1 for TFTP. -/
def tftpRow : VrfRow := ⟨.empty, [("tftp".toList, ['1'])]⟩

/-- TFTP is set to port 1. -/
theorem tftpRow_run (allowed : VrfRow → SourceInterfaceProtocol → Command → Prop)
    (h : allowed .empty .tftp (.setSourceInterface twoPorts ['1'])) :
    Run commandKeys allowed tftpRow
      (Function.update (fun _ => none) .tftp (some (.interface ['1']))) := by
  refine @Run.exec commandKeys allowed .empty tftpRow _ committedTxn .tftp
    (.setSourceInterface twoPorts ['1']) _ .empty h rfl ⟨rfl, nofun, ?_⟩
  rintro lists ⟨⟩
  exact ⟨by decide, by decide, by decide⟩

/-- In every run in which a source interface is set only where the protocol has no other, the
last command on a protocol wins, `all` stands in for a protocol without setting, and a command
on one protocol changes no other. -/
theorem source_of_run {protocolKeys : SourceInterfaceProtocol → CString}
    (hkeys : PrefixFree protocolKeys) {row : VrfRow}
    {last : SourceInterfaceProtocol → Option Setting}
    (h : Run protocolKeys (NoOtherPort protocolKeys) row last) :
    (∀ p, getConfiguredProtocolSourceLocal protocolKeys p (some row) = Setting.shown (last p)) ∧
      (∀ p, getProtocolSourceLocal protocolKeys p (some row)
        = Setting.shown ((last p).or (last .all))) ∧
      ∀ {txn : Txn} {type : SourceInterfaceProtocol} {command : Command} {written : Written}
        {row' : VrfRow},
        (command.exec protocolKeys txn type (some row)).written = some written →
        Commits row written row' →
        ∀ p ≠ type, getConfiguredProtocolSourceLocal protocolKeys p (some row')
          = getConfiguredProtocolSourceLocal protocolKeys p (some row) := by
  obtain ⟨hrow, hholds⟩ := h.holds hkeys
  have hread := fun p => (hholds p).configured hkeys hrow
  refine ⟨hread, fun p => ?_, ?_⟩
  · unfold getProtocolSourceLocal
    simp only [hread]
    cases hlast : last p with
    | some setting => cases setting <;> rfl
    | none =>
      by_cases hp : p = .all
      · rw [← hp, hlast]
        simp [Setting.shown, hp]
      · simp [Setting.shown, hp]
  · intro txn type command written row' hexec hcommits p hp
    have heffect := exec_effect hkeys hrow hexec hcommits
    rw [hread, (heffect.other p hp _ (hholds p)).configured hkeys heffect.wellFormed]

theorem source_of_run_tftp :
    getConfiguredProtocolSourceLocal commandKeys .tftp (some tftpRow)
        = (true, ⟨some ['1'], .sourceInterface⟩) ∧
      getProtocolSourceLocal commandKeys .radius (some tftpRow) = (false, ⟨none, .sourceMax⟩) :=
  have hrun := source_of_run commandKeys_prefixFree (tftpRow_run (NoOtherPort commandKeys) nofun)
  ⟨hrun.1 .tftp, hrun.2.1 .radius⟩

/-- Of two ports that are set for a protocol the database may keep the first. -/
theorem second_port_may_be_dropped :
    ¬∀ row last, Run commandKeys (fun _ _ _ => True) row last →
      ∀ p, getConfiguredProtocolSourceLocal commandKeys p (some row) = Setting.shown (last p) := by
  intro h
  have hcommits : Commits tftpRow
      ⟨none, some ⟨[("tftp".toList, ['1']), ("tftp".toList, ['2'])], 2⟩⟩ tftpRow := by
    refine ⟨rfl, nofun, ?_⟩
    rintro lists ⟨⟩
    exact ⟨by decide, by decide, by decide⟩
  have hrun := @Run.exec commandKeys (fun _ _ _ => True) tftpRow tftpRow _ committedTxn .tftp
    (.setSourceInterface twoPorts ['2']) _ (tftpRow_run _ trivial) trivial rfl hcommits
  exact absurd (h _ _ hrun .tftp) (by decide)

end SourceInterface
end IpApps
