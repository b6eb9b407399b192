import IpApps.InetPton
import IpApps.SourceInterface.ConfiguredSources

/-!
# The running configuration of the source interfaces

`vtysh_source_interface_context_clientcallback` prints the source of each protocol as a command
line. Executed on a row without settings the lines give the sources back as far as the addresses
and the interfaces are still there: `replay_of_run` says what becomes of each of them.
-/

namespace IpApps
namespace SourceInterface

/-! ## Command lines -/

/-- `get_protocol_by_name`. -/
def getProtocolByName (protocolName : CString) : SourceInterfaceProtocol :=
  if Libc.strncmp protocolName (commandKeys .tftp) protocolName.length = 0 then .tftp
  else if Libc.strncmp protocolName (commandKeys .tacacs) protocolName.length = 0 then .tacacs
  else if Libc.strncmp protocolName (commandKeys .radius) protocolName.length = 0 then .radius
  else .all

/-- The commands with their arguments. -/
inductive Line
  /-- `ip source-interface (tftp | tacacs | radius | all) interface IFNAME`. -/
  | ipSourceInterface (argv0 argv1 : CString)
  /-- `ip source-interface (tftp | tacacs | radius | all) A.B.C.D`. -/
  | ipSourceAddress (argv0 argv1 : CString)
  /-- `no ip source-interface (tftp | tacacs | radius | all)`. -/
  | noIpSourceInterface (argv0 : CString)
  deriving DecidableEq, Repr

/-- The words in `(tftp | tacacs | radius | all)`. -/
def protocolWords : List CString := ["tftp", "tacacs", "radius", "all"].map String.toList

/-- The command that is meant by a line. -/
def parseLine (text : CString) : Option Line :=
  match text.splitOn ' ' with
  | [word₀, word₁, word₂, word₃] =>
    if word₀ = "ip".toList ∧ word₁ = "source-interface".toList ∧ word₂ ∈ protocolWords then
      some (.ipSourceAddress word₂ word₃)
    else if word₀ = "no".toList ∧ word₁ = "ip".toList ∧ word₂ = "source-interface".toList ∧
        word₃ ∈ protocolWords then
      some (.noIpSourceInterface word₃)
    else none
  | [word₀, word₁, word₂, word₃, word₄] =>
    if word₀ = "ip".toList ∧ word₁ = "source-interface".toList ∧ word₂ ∈ protocolWords ∧
        word₃ = "interface".toList then
      some (.ipSourceInterface word₂ word₄)
    else none
  | _ => none

section exec

-- `IS_VALID_IPV4`, on an address in host order
variable (isValidIpv4 : ℕ → Bool)

/-- The protocol and the command of a line, or the message that is printed in its place. -/
def Line.decode (ports : List PortRow) : Line → Except String (SourceInterfaceProtocol × Command)
  | ipSourceInterface argv0 argv1 =>
    .ok (getProtocolByName argv0, .setSourceInterface ports argv1)
  | ipSourceAddress argv0 argv1 =>
    match Libc.inetPton argv1 with
    | none => .error "Invalid IPv4 address."
    | some addr =>
      if !isValidIpv4 (Libc.htonl addr.toNat) then
        .error "Broadcast, multicast and loopback addresses are not allowed."
      else .ok (getProtocolByName argv0, .setSourceIp ports argv1)
  | noIpSourceInterface argv0 => .ok (getProtocolByName argv0, .resetSourceInterface)

/-- Executes a line on the row of the default VRF. -/
def Line.exec (ports : List PortRow) (txn : Txn) (row : VrfRow) (line : Line) : Outcome :=
  match line.decode isValidIpv4 ports with
  | .ok (type, command) => command.exec commandKeys txn type (some row)
  | .error message => ⟨some message, .success, none⟩

/-- What a line writes; one that is no command writes nothing. -/
def writtenBy (ports : List PortRow) (row : VrfRow) (text : CString) : Option Written :=
  (parseLine text).bind fun line => (line.exec isValidIpv4 ports committedTxn row).written

/-- The rows that lines lead to, each in a transaction that goes through. -/
inductive Replays (ports : List PortRow) : List CString → VrfRow → VrfRow → Prop
  | nil (row : VrfRow) : Replays ports [] row row
  | silent {text : CString} {texts : List CString} {row row' : VrfRow}
      (h : writtenBy isValidIpv4 ports row text = none) (hrest : Replays ports texts row row') :
      Replays ports (text :: texts) row row'
  | write {text : CString} {texts : List CString} {row row₁ row' : VrfRow} {written : Written}
      (h : writtenBy isValidIpv4 ports row text = some written)
      (hcommits : Commits row written row₁) (hrest : Replays ports texts row₁ row') :
      Replays ports (text :: texts) row row'

end exec

/-! ## Printing -/

/-- `vtysh_ovsdb_cli_print`, with as many `%s` as there are arguments. -/
def cliPrint (args : List CString) : CString := [' '].intercalate args

/-- `display_source_interface_config`. -/
def displaySourceInterfaceConfig (type : SourceInterfaceProtocol) (vrfRow : Option VrfRow) :
    List CString :=
  let configured := getConfiguredProtocolSourceLocal commandKeys type vrfRow
  if configured.1 then
    let source := configured.2.source.getD []
    match configured.2.configType with
    | .sourceIp => [cliPrint ["ip source-interface".toList, commandKeys type, source]]
    | .sourceInterface =>
      [cliPrint ["ip source-interface".toList, commandKeys type, "interface".toList, source]]
    | .sourceMax => []
  else []

/-- The protocols in the order in which they are displayed. -/
def displayed : List SourceInterfaceProtocol := [.tftp, .tacacs, .radius, .all]

/-- `vtysh_source_interface_context_clientcallback`. -/
def vtyshSourceInterfaceContextClientcallback (vrfRow : Option VrfRow) : List CString :=
  match vrfRow with
  | none => []
  | some row => displayed.flatMap fun type => displaySourceInterfaceConfig type (some row)

/-! ## Settings and lines -/

namespace Setting

/-- The line that is printed for a setting. -/
def text (p : SourceInterfaceProtocol) : Setting → CString
  | .ip source => cliPrint ["ip source-interface".toList, commandKeys p, source]
  | .interface name =>
    cliPrint ["ip source-interface".toList, commandKeys p, "interface".toList, name]

/-- The command that makes it. -/
def line (p : SourceInterfaceProtocol) : Setting → Line
  | .ip source => .ipSourceAddress (commandKeys p) source
  | .interface name => .ipSourceInterface (commandKeys p) name

/-- A setting as it can have been typed: one word, and an address that is allowed. -/
def Typed (isValidIpv4 : ℕ → Bool) : Setting → Prop
  | .ip source => ' ' ∉ source ∧
      ∃ addr, Libc.inetPton source = some addr ∧ isValidIpv4 (Libc.htonl addr.toNat) = true
  | .interface name => ' ' ∉ name

/-- What becomes of a setting when it is made again: an address must be there, and of the ports
the first one counts whose name begins like that of the interface. -/
def replayed (ports : List PortRow) : Setting → Option Setting
  | .ip source => if isIpConfigured ports source then some (.ip source) else none
  | .interface name => (getPort ports name).map fun port => .interface port.name

/-- The address is still there, or the port is still found by its name. -/
def StillThere (ports : List PortRow) : Setting → Prop
  | .ip source => isIpConfigured ports source = true
  | .interface name => ∃ port, getPort ports name = some port ∧ port.name = name

/-- The setting as a command. -/
def command (ports : List PortRow) : Setting → Command
  | .ip source => .setSourceIp ports source
  | .interface name => .setSourceInterface ports name

end Setting

theorem getProtocolByName_commandKeys (p : SourceInterfaceProtocol) :
    getProtocolByName (commandKeys p) = p := by
  cases p <;> decide

theorem commandKeys_mem (p : SourceInterfaceProtocol) : commandKeys p ∈ protocolWords := by
  cases p <;> decide

theorem commandKeys_word (p : SourceInterfaceProtocol) : ' ' ∉ commandKeys p := by
  cases p <;> decide

section line

variable {isValidIpv4 : ℕ → Bool} {ports : List PortRow} {row : VrfRow}
  {p : SourceInterfaceProtocol} {setting : Setting}

/-- The words of a line that is printed. -/
theorem splitOn_cliPrint {words : List CString} (hwords : ∀ word ∈ words, ' ' ∉ word)
    (hne : words ≠ []) : (cliPrint words).splitOn ' ' = words :=
  List.splitOn_intercalate ' ' hwords hne

theorem parseLine_text (h : setting.Typed isValidIpv4) :
    parseLine (setting.text p) = some (setting.line p) := by
  have hkey := commandKeys_word p
  have hip : ' ' ∉ "ip".toList := by decide
  have hcommand : ' ' ∉ "source-interface".toList := by decide
  cases setting with
  | ip source =>
    have hsplit : (Setting.text p (.ip source)).splitOn ' '
        = ["ip".toList, "source-interface".toList, commandKeys p, source] := by
      refine @splitOn_cliPrint ["ip".toList, "source-interface".toList, commandKeys p, source] ?_
        (List.cons_ne_nil _ _)
      simp only [List.mem_cons, List.not_mem_nil, or_false, forall_eq_or_imp, forall_eq]
      exact ⟨hip, hcommand, hkey, h.1⟩
    unfold parseLine
    rw [hsplit]
    exact if_pos ⟨rfl, rfl, commandKeys_mem p⟩
  | interface name =>
    have hword : ' ' ∉ "interface".toList := by decide
    have hsplit : (Setting.text p (.interface name)).splitOn ' '
        = ["ip".toList, "source-interface".toList, commandKeys p, "interface".toList, name] := by
      refine @splitOn_cliPrint ["ip".toList, "source-interface".toList, commandKeys p,
        "interface".toList, name] ?_ (List.cons_ne_nil _ _)
      simp only [List.mem_cons, List.not_mem_nil, or_false, forall_eq_or_imp, forall_eq]
      exact ⟨hip, hcommand, hkey, hword, h⟩
    unfold parseLine
    rw [hsplit]
    exact if_pos ⟨rfl, rfl, commandKeys_mem p, rfl⟩

theorem decode_line (h : setting.Typed isValidIpv4) :
    (setting.line p).decode isValidIpv4 ports = .ok (p, setting.command ports) := by
  cases setting with
  | ip source =>
    obtain ⟨-, addr, haddr, hvalid⟩ := h
    unfold Setting.line Line.decode
    dsimp only
    rw [haddr]
    dsimp only
    rw [hvalid, getProtocolByName_commandKeys]
    rfl
  | interface name =>
    unfold Setting.line Line.decode
    dsimp only
    rw [getProtocolByName_commandKeys]
    rfl

theorem writtenBy_text (h : setting.Typed isValidIpv4) :
    writtenBy isValidIpv4 ports row (setting.text p)
      = ((setting.command ports).exec commandKeys committedTxn p (some row)).written := by
  unfold writtenBy
  rw [parseLine_text h, Option.bind_some]
  unfold Line.exec
  rw [decode_line h]

/-- A setting is made again if something is written, and then what is set is its replay. -/
theorem replayed_eq : setting.replayed ports =
    if ((setting.command ports).exec commandKeys committedTxn p (some row)).written.isSome
    then (setting.command ports).setting else none := by
  cases setting with
  | ip source =>
    unfold Setting.command Command.exec setSourceIp withDefaultVrf Setting.replayed
    by_cases hconfigured : isIpConfigured ports source = true
    · simp [hconfigured, committedTxn, finish, Command.setting]
    · simp [hconfigured, committedTxn]
  | interface name =>
    unfold Setting.command Command.exec setSourceInterface withDefaultVrf Setting.replayed
    cases hport : getPort ports name with
    | none => simp [hport, committedTxn]
    | some port => simp [hport, committedTxn, finish, Command.setting]

theorem replayed_eq_self_iff : setting.replayed ports = some setting ↔
    setting.StillThere ports := by
  cases setting with
  | ip source => simp [Setting.replayed, Setting.StillThere]
  | interface name =>
    simp only [Setting.replayed, Setting.StillThere, Option.map_eq_some_iff,
      Setting.interface.injEq]

end line

/-! ## Replaying -/

section replay

variable {isValidIpv4 : ℕ → Bool} {ports : List PortRow} {row row' : VrfRow}
  {last : SourceInterfaceProtocol → Option Setting}

/-- A command that is typed: a source is one word, and an address that is allowed. -/
def Command.Typed (isValidIpv4 : ℕ → Bool) (command : Command) : Prop :=
  ∀ setting, command.setting = some setting → setting.Typed isValidIpv4

/-- Typed commands that set a source interface only where the protocol has no other. -/
def typedCommands (isValidIpv4 : ℕ → Bool) (row : VrfRow) (type : SourceInterfaceProtocol)
    (command : Command) : Prop :=
  NoOtherPort commandKeys row type command ∧ command.Typed isValidIpv4

theorem Run.noOtherPort (h : Run commandKeys (typedCommands isValidIpv4) row last) :
    Run commandKeys (NoOtherPort commandKeys) row last := by
  induction h with
  | empty => exact .empty
  | exec _ hallowed hexec hcommits ih => exact .exec ih hallowed.1 hexec hcommits

theorem Run.typed (h : Run commandKeys (typedCommands isValidIpv4) row last)
    {p : SourceInterfaceProtocol} {setting : Setting} (hlast : last p = some setting) :
    setting.Typed isValidIpv4 := by
  induction h with
  | empty => cases hlast
  | @exec _ _ _ _ type command _ _ hallowed _ _ ih =>
    by_cases hp : p = type
    · rw [hp, Function.update_self] at hlast
      exact hallowed.2 setting hlast
    · rw [Function.update_of_ne hp] at hlast
      exact ih hlast

/-- The lines that are printed for the settings of some protocols. -/
def texts (last : SourceInterfaceProtocol → Option Setting) (ps : List SourceInterfaceProtocol) :
    List CString :=
  ps.flatMap fun p => ((last p).map (Setting.text p)).toList

theorem vtyshSourceInterfaceContextClientcallback_eq
    (h : Run commandKeys (NoOtherPort commandKeys) row last) :
    vtyshSourceInterfaceContextClientcallback (some row) = texts last displayed := by
  obtain ⟨hrow, hholds⟩ := h.holds commandKeys_prefixFree
  unfold vtyshSourceInterfaceContextClientcallback texts
  refine List.flatMap_congr fun p _ => ?_
  unfold displaySourceInterfaceConfig
  rw [(hholds p).configured commandKeys_prefixFree hrow]
  rcases last p with - | source | name
  · rfl
  · rfl
  · rfl

/-- The settings after the lines of the protocols `ps` have been executed on a row with the
settings `before`. -/
def replayedSettings (ports : List PortRow) (last before : SourceInterfaceProtocol → Option Setting)
    (ps : List SourceInterfaceProtocol) (p : SourceInterfaceProtocol) : Option Setting :=
  if p ∈ ps then (last p).bind (Setting.replayed ports) else before p

theorem Replays.run {ps : List SourceInterfaceProtocol} (hps : ps.Nodup)
    (htyped : ∀ p setting, last p = some setting → setting.Typed isValidIpv4)
    {before : SourceInterfaceProtocol → Option Setting} (hfree : ∀ p ∈ ps, before p = none)
    (h : Run commandKeys (NoOtherPort commandKeys) row before)
    (hreplays : Replays isValidIpv4 ports (texts last ps) row row') :
    Run commandKeys (NoOtherPort commandKeys) row' (replayedSettings ports last before ps) := by
  induction ps generalizing row before with
  | nil =>
    cases hreplays
    exact h
  | cons p ps ih =>
    rw [List.nodup_cons] at hps
    have hp := hfree p List.mem_cons_self
    have hrest : ∀ q ∈ ps, before q = none := fun q hq => hfree q (List.mem_cons_of_mem p hq)
    -- what is set for the protocol, and then for the others
    have hstep : ∀ {before' : SourceInterfaceProtocol → Option Setting},
        before' p = (last p).bind (Setting.replayed ports) →
        (∀ q ≠ p, before' q = before q) →
        replayedSettings ports last before' ps = replayedSettings ports last before (p :: ps) := by
      intro before' hset hother
      funext q
      unfold replayedSettings
      by_cases hq : q = p
      · rw [hq, if_neg hps.1, if_pos List.mem_cons_self, hset]
      · rw [hother q hq]
        simp only [List.mem_cons, hq, false_or]
    cases hlast : last p with
    | none =>
      have htexts : texts last (p :: ps) = texts last ps := by
        unfold texts
        rw [List.flatMap_cons, hlast]
        rfl
      rw [htexts] at hreplays
      rw [← hstep (by rw [hp, hlast]; rfl) fun q _ => rfl]
      exact ih hps.2 hrest h hreplays
    | some setting =>
      have htexts : texts last (p :: ps) = setting.text p :: texts last ps := by
        unfold texts
        rw [List.flatMap_cons, hlast]
        rfl
      have hwritten := @writtenBy_text isValidIpv4 ports row p setting (htyped p setting hlast)
      have hreplayed := @replayed_eq ports row p setting
      rw [htexts] at hreplays
      cases hreplays with
      | silent hnone hreplays =>
        rw [hwritten] at hnone
        rw [hnone] at hreplayed
        rw [← hstep (by rw [hp, hlast, Option.bind_some, hreplayed]; rfl) fun q _ => rfl]
        exact ih hps.2 hrest h hreplays
      | @write _ _ _ row₁ _ written hsome hcommits hreplays =>
        rw [hwritten] at hsome
        rw [hsome] at hreplayed
        obtain ⟨-, hholds⟩ := h.holds commandKeys_prefixFree
        have hallowed : NoOtherPort commandKeys row p (setting.command ports) := by
          intro name _ pair hpair hkey
          have hmem : (commandKeys p, pair.2) ∈ row.sourceInterface := by
            rw [← hkey]
            exact hpair
          have hset := ((hholds p).interface pair.2).mp hmem
          rw [hp] at hset
          cases hset
        have hrun := Run.exec h hallowed hsome hcommits
        rw [← @hstep (Function.update before p (setting.command ports).setting) ?_ ?_]
        · refine ih hps.2 (fun q hq => ?_) hrun hreplays
          have hne : q ≠ p := fun heq => hps.1 (heq ▸ hq)
          rw [Function.update_of_ne hne]
          exact hrest q hq
        · rw [Function.update_self, hlast, Option.bind_some, hreplayed]
          rfl
        · intro q hq
          exact Function.update_of_ne hq ..

theorem exists_commits (row : VrfRow) (written : Written) : ∃ row', Commits row written row' := by
  cases hlists : written.sourceInterface with
  | none =>
    refine ⟨⟨written.sourceIp.getD row.sourceIp, row.sourceInterface⟩, rfl, fun _ => rfl, ?_⟩
    intro lists hsome
    rw [hlists] at hsome
    cases hsome
  | some lists =>
    obtain ⟨stored, hstored⟩ := exists_stored lists.given
    refine ⟨⟨written.sourceIp.getD row.sourceIp, stored⟩, rfl, ?_, ?_⟩
    · intro hnone
      rw [hlists] at hnone
      cases hnone
    · intro lists' hsome
      rw [hlists] at hsome
      rw [← Option.some.inj hsome]
      exact hstored

theorem exists_replays (isValidIpv4 : ℕ → Bool) (ports : List PortRow) (texts : List CString)
    (row : VrfRow) : ∃ row', Replays isValidIpv4 ports texts row row' := by
  induction texts generalizing row with
  | nil => exact ⟨row, .nil row⟩
  | cons text texts ih =>
    cases hwritten : writtenBy isValidIpv4 ports row text with
    | none =>
      obtain ⟨row', hrest⟩ := ih row
      exact ⟨row', .silent hwritten hrest⟩
    | some written =>
      obtain ⟨row₁, hcommits⟩ := exists_commits row written
      obtain ⟨row', hrest⟩ := ih row₁
      exact ⟨row', .write hwritten hcommits hrest⟩

theorem Setting.shown_inj {setting setting' : Option Setting}
    (h : Setting.shown setting = Setting.shown setting') : setting = setting' := by
  rcases setting with - | source | name <;> rcases setting' with - | source' | name' <;>
    simp_all [Setting.shown]

/-- The lines that are printed in any run of typed commands can be executed on a row without
settings, whatever the ports are then. Each protocol gets what becomes of its setting with these
ports, so that all sources are as before exactly if each address is still there and each port is
still found by its name. -/
theorem replay_of_run (h : Run commandKeys (typedCommands isValidIpv4) row last)
    (ports : List PortRow) :
    (∃ row', Replays isValidIpv4 ports (vtyshSourceInterfaceContextClientcallback (some row))
        .empty row') ∧
      ∀ row', Replays isValidIpv4 ports (vtyshSourceInterfaceContextClientcallback (some row))
          .empty row' →
        (∀ p, getConfiguredProtocolSourceLocal commandKeys p (some row')
          = Setting.shown ((last p).bind (Setting.replayed ports))) ∧
        ((∀ p, getConfiguredProtocolSourceLocal commandKeys p (some row')
            = getConfiguredProtocolSourceLocal commandKeys p (some row)) ↔
          ∀ p setting, last p = some setting → setting.StillThere ports) := by
  refine ⟨exists_replays isValidIpv4 ports _ _, fun row' hreplays => ?_⟩
  have hrun := h.noOtherPort
  obtain ⟨hrow, hholds⟩ := hrun.holds commandKeys_prefixFree
  rw [vtyshSourceInterfaceContextClientcallback_eq hrun] at hreplays
  have hrun' := hreplays.run (by decide) (fun p setting => h.typed) (fun p _ => rfl) .empty
  obtain ⟨hrow', hholds'⟩ := hrun'.holds commandKeys_prefixFree
  have hread : ∀ p, getConfiguredProtocolSourceLocal commandKeys p (some row')
      = Setting.shown ((last p).bind (Setting.replayed ports)) := by
    intro p
    have hmem : p ∈ displayed := by
      cases p <;> decide
    rw [(hholds' p).configured commandKeys_prefixFree hrow', replayedSettings, if_pos hmem]
  refine ⟨hread, ?_⟩
  simp only [hread, (hholds _).configured commandKeys_prefixFree hrow]
  constructor
  · intro hsame p setting hlast
    have hset := Setting.shown_inj (hsame p)
    rw [hlast, Option.bind_some] at hset
    exact replayed_eq_self_iff.mp hset
  · intro hstill p
    cases hlast : last p with
    | none => rfl
    | some setting =>
      rw [Option.bind_some, replayed_eq_self_iff.mpr (hstill p setting hlast)]

/-- Port 1 is there, or another one is whose name begins like that of port 1. -/
theorem replay_of_run_tftp :
    (∀ row', Replays (fun _ => true) twoPorts
        (vtyshSourceInterfaceContextClientcallback (some tftpRow)) .empty row' →
      getConfiguredProtocolSourceLocal commandKeys .tftp (some row')
        = (true, ⟨some ['1'], .sourceInterface⟩)) ∧
      ∀ row', Replays (fun _ => true) [⟨['1', '0'], some "1.1.1.1/24".toList, []⟩]
          (vtyshSourceInterfaceContextClientcallback (some tftpRow)) .empty row' →
        getConfiguredProtocolSourceLocal commandKeys .tftp (some row')
          = (true, ⟨some ['1', '0'], .sourceInterface⟩) := by
  have hrun := tftpRow_run (typedCommands fun _ => true)
    ⟨fun _ _ _ hpair => absurd hpair List.not_mem_nil, fun setting hset => by
      obtain rfl := Option.some.inj hset
      show ' ' ∉ ['1']
      decide⟩
  refine ⟨fun row' hreplays => ?_, fun row' hreplays => ?_⟩
  · exact ((replay_of_run hrun twoPorts).2 row' hreplays).1 .tftp
  · exact ((replay_of_run hrun _).2 row' hreplays).1 .tftp

end replay

end SourceInterface
end IpApps
