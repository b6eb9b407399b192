import IpApps.Udpfwd.RelayCommands
import Mathlib.Data.List.Nodup

/-!
# The running configuration of the relay

`vtysh_dhcp_relay_context_clientcallback` prints the `dhcp_config` column as command lines.
Executed on an empty map they give the printed settings back, unless option 82 was turned on
while the relay was disabled: then the line for option 82 enables the relay again, if it is
not handled by `dhcp_relay_drop_option_configuration` as well.
-/

namespace IpApps
namespace Udpfwd
namespace Vty

/-! ## Printing -/

/-- The line for option 82: the policy, `validate`, and `ip`. -/
def option82Line (policy : CString) (validate remoteIdIp : Bool) : CString :=
  "dhcp-relay option 82 ".toList ++ policy ++
    if validate then (if remoteIdIp then " validate ip".toList else " validate".toList)
    else (if remoteIdIp then " ip".toList else [])

/-- `vtysh_dhcp_relay_context_clientcallback`: the lines it prints. -/
def vtyshDhcpRelayContextClientcallback (ovsRow : Option (SMap DhcpConfigKey)) : List CString :=
  match ovsRow with
  | none => []
  | some m =>
    let lines :=
      if statusIsTrue (m .disabled) then ["no dhcp-relay".toList] else []
    let lines :=
      if statusIsTrue (m .hopCountIncrementDisabled) then
        lines ++ ["no dhcp-relay hop-count-increment".toList]
      else lines
    let policy := (m .option82Policy).getD "replace".toList
    if statusIsTrue (m .option82Enabled) then
      lines ++ [option82Line policy (statusIsTrue (m .option82ValidationEnabled))
        (m .option82RemoteId = some "ip".toList)]
    else lines

/-! ## Executing lines -/

/-- The commands with their arguments. -/
def commands : List (Defun × Option CString) :=
  [Defun.dhcpRelay, .options, .keepOption, .dropOption, .dropValidateOption,
    .dropRemoteIdMacOption, .dropRemoteIdIpOption, .replaceOption, .replaceValidateOption,
    .replaceRemoteIdMacOption, .replaceRemoteIdIpOption, .validatePolicyOption,
    .validateDropOption, .validateReplaceOption, .noOption, .noDhcpRelay].flatMap
    fun d => d.args.map fun argv0 => (d, argv0)

/-- The line that is typed for a command. -/
def commandLine (d : Defun) (argv0 : Option CString) : CString :=
  match argv0 with
  | none => d.words.toList
  | some arg => d.words.toList ++ ' ' :: arg

/-- Executes a line; one that is no command changes nothing. -/
def execLine (ovsRow : Option (SMap DhcpConfigKey)) (line : CString) :
    Option (SMap DhcpConfigKey) :=
  match commands.find? fun command => commandLine command.1 command.2 = line with
  | some (d, argv0) => (d.exec argv0 committedTxn ovsRow).2
  | none => ovsRow

/-- A command with one of its arguments is one of them. -/
theorem mem_commands {d : Defun} {argv0 : Option CString} (h : argv0 ∈ d.args) :
    (d, argv0) ∈ commands :=
  List.mem_flatMap.mpr ⟨d, by cases d <;> simp, List.mem_map_of_mem h⟩

/-- No two commands are typed alike. -/
theorem commandLines_nodup :
    (commands.map fun command => commandLine command.1 command.2).Nodup := by
  simp only [commands, Defun.args, commandLine, Defun.words, List.flatMap_cons, List.flatMap_nil,
    List.map_cons, List.map_nil, List.cons_append, List.nil_append, String.reduceToList]
  decide +kernel

/-- The line of a command is handled by that command. -/
theorem find_commandLine {command : Defun × Option CString} (h : command ∈ commands) :
    commands.find? (fun other => commandLine other.1 other.2 = commandLine command.1 command.2)
      = some command := by
  cases hfind : commands.find?
      (fun other => commandLine other.1 other.2 = commandLine command.1 command.2) with
  | none =>
    have hno := List.find?_eq_none.mp hfind command h
    exact absurd rfl (of_decide_eq_false (Bool.eq_false_iff.mpr hno))
  | some other =>
    have hline : commandLine other.1 other.2 = commandLine command.1 command.2 := by
      simpa using List.find?_some hfind
    have hother : other ∈ commands := List.mem_of_find?_eq_some hfind
    rw [List.inj_on_of_nodup_map commandLines_nodup hother h hline]

/-- The printed lines, executed on an empty map, give the settings back. -/
def RoundTrips (m : SMap DhcpConfigKey) : Prop :=
  ∃ m', (vtyshDhcpRelayContextClientcallback (some m)).foldl execLine (some .empty) = some m' ∧
    settings m' = settings m

/-! ## On settings -/

/-- A command on settings. -/
def Settings.exec (s : Settings) (command : Defun × Option CString) : Settings :=
  match (command.1.step (some (keeping (s.policy = policyName .keep))) command.2).change with
  | none => s
  | some c => s.apply c

/-- The command that is printed for option 82. -/
def option82Command (policy : Option82Policy) (validate : Bool) (rId : RemoteId) :
    Defun × Option CString :=
  match policy, validate, rId with
  | .drop, true, .ip => (.dropValidateOption, some "ip".toList)
  | .drop, true, .mac => (.dropOption, some "validate".toList)
  | .drop, false, .ip => (.dropOption, some "ip".toList)
  | .replace, true, .ip => (.replaceValidateOption, some "ip".toList)
  | .replace, true, .mac => (.replaceOption, some "validate".toList)
  | .replace, false, .ip => (.replaceOption, some "ip".toList)
  | .keep, _, .ip => (.keepOption, some "ip".toList)
  | policy, _, .mac => (.options, some (policyName policy))

/-- The commands printed for settings. -/
def printedCommands (dhcpRelay hopCountIncrement option82 validate : Bool)
    (policy : Option82Policy) (rId : RemoteId) : List (Defun × Option CString) :=
  (if dhcpRelay then [] else [(.noDhcpRelay, none)])
    ++ (if hopCountIncrement then [] else [(.noDhcpRelay, some "hop-count-increment".toList)])
    ++ if option82 then [option82Command policy validate rId] else []

section lines

variable (m : SMap DhcpConfigKey)

theorem exec_settings (d : Defun) (argv0 : Option CString) :
    ∃ m', (d.exec argv0 committedTxn (some m)).2 = some m' ∧
      settings m' = (settings m).exec (d, argv0) := by
  unfold Defun.exec Settings.exec
  rw [step_keeping d m argv0]
  cases d.step (some (keeping ((settings m).policy = policyName .keep))) argv0 with
  | ret result => exact ⟨m, rfl, rfl⟩
  | config updateFeatures configValue =>
    exact ⟨_, rfl, settings_newDhcpConfig m updateFeatures configValue⟩

/-- The lines of commands, executed one after the other. -/
theorem execLines_settings {executed : List (Defun × Option CString)} (h : executed ⊆ commands) :
    ∃ m', (executed.map fun command => commandLine command.1 command.2).foldl execLine (some m)
        = some m' ∧
      settings m' = executed.foldl Settings.exec (settings m) := by
  induction executed generalizing m with
  | nil => exact ⟨m, rfl, rfl⟩
  | cons command executed ih =>
    have hcommand : execLine (some m) (commandLine command.1 command.2)
        = (command.1.exec command.2 committedTxn (some m)).2 := by
      unfold execLine
      rw [find_commandLine (h List.mem_cons_self)]
    obtain ⟨m₁, hfirst, hsettings⟩ := exec_settings m command.1 command.2
    obtain ⟨m₂, hrest, hlast⟩ := ih m₁ (List.subset_of_cons_subset h)
    refine ⟨m₂, ?_, ?_⟩
    · rw [List.map_cons, List.foldl_cons, hcommand, hfirst, hrest]
    · rw [List.foldl_cons, hlast, hsettings]

end lines

/-- The line for option 82 is that of its command, if `keep` does not come with validation. -/
theorem commandLine_option82Command (policy : Option82Policy) (validate : Bool) (rId : RemoteId)
    (h : policy = .keep → validate = false) :
    option82Command policy validate rId ∈ commands ∧
      commandLine (option82Command policy validate rId).1 (option82Command policy validate rId).2
        = option82Line (policyName policy) validate (rId = .ip) := by
  cases policy <;> cases validate <;> cases rId <;>
    first | exact ⟨mem_commands (by decide), rfl⟩ | simp at h

section printed

variable {m : SMap DhcpConfigKey} {policy : Option82Policy} {rId : RemoteId}

/-- The remote ID `ip` is shown if and only if it is stored. -/
theorem settings_ip_iff (h : (settings m).remoteId = remoteIdName rId) :
    m .option82RemoteId = some "ip".toList ↔ rId = .ip := by
  have hread : (m .option82RemoteId).getD (remoteIdName .mac) = remoteIdName rId := h
  cases hstored : m .option82RemoteId with
  | none =>
    rw [hstored, Option.getD_none] at hread
    cases rId with
    | ip => exact absurd hread (by decide)
    | mac => simp
  | some rid =>
    rw [hstored, Option.getD_some] at hread
    rw [Option.some_inj, hread]
    cases rId <;> decide

/-- The printed lines are those of the printed commands. -/
theorem lines_printedCommands (hpolicy : (settings m).policy = policyName policy)
    (hrId : (settings m).remoteId = remoteIdName rId)
    (hkeep : policy = .keep → (settings m).option82Validate = false) :
    vtyshDhcpRelayContextClientcallback (some m)
      = (printedCommands (settings m).dhcpRelay (settings m).hopCountIncrement
          (settings m).option82 (settings m).option82Validate policy rId).map
        fun command => commandLine command.1 command.2 := by
  have hread : (m .option82Policy).getD "replace".toList = policyName policy := hpolicy
  have hline : option82Line (policyName policy) (statusIsTrue (m .option82ValidationEnabled))
      (rId = .ip)
        = commandLine
          (option82Command policy (statusIsTrue (m .option82ValidationEnabled)) rId).1
          (option82Command policy (statusIsTrue (m .option82ValidationEnabled)) rId).2 :=
    (commandLine_option82Command policy _ rId hkeep).2.symm
  have hhop : "no dhcp-relay hop-count-increment".toList
      = commandLine .noDhcpRelay (some "hop-count-increment".toList) := rfl
  unfold vtyshDhcpRelayContextClientcallback printedCommands
  simp only [hread, settings_ip_iff hrId, hline, hhop]
  show _ = List.map _ ((if (!statusIsTrue (m .disabled)) = true then _ else _)
    ++ (if (!statusIsTrue (m .hopCountIncrementDisabled)) = true then _ else _)
    ++ (if statusIsTrue (m .option82Enabled) = true then _ else _))
  -- the lines are printed in the order of the commands
  cases statusIsTrue (m .disabled) <;> cases statusIsTrue (m .hopCountIncrementDisabled) <;>
    cases statusIsTrue (m .option82Enabled) <;> rfl

/-- The printed commands are commands. -/
theorem printedCommands_subset (dhcpRelay hopCountIncrement option82 : Bool) {validate : Bool}
    (hkeep : policy = .keep → validate = false) :
    printedCommands dhcpRelay hopCountIncrement option82 validate policy rId ⊆ commands := by
  unfold printedCommands
  intro command hcommand
  simp only [List.mem_append] at hcommand
  rcases hcommand with (hrelay | hhop) | hoption
  · cases dhcpRelay with
    | true => exact absurd hrelay (by simp)
    | false =>
      rw [List.mem_singleton.mp hrelay]
      exact mem_commands (by decide)
  · cases hopCountIncrement with
    | true => exact absurd hhop (by simp)
    | false =>
      rw [List.mem_singleton.mp hhop]
      exact mem_commands (by decide)
  · cases option82 with
    | false => exact absurd hoption (by simp)
    | true =>
      rw [List.mem_singleton.mp hoption]
      exact (commandLine_option82Command policy validate rId hkeep).1

/-- The round trip, on settings. -/
theorem roundTrips_iff_settings (hpolicy : (settings m).policy = policyName policy)
    (hrId : (settings m).remoteId = remoteIdName rId)
    (hkeep : policy = .keep → (settings m).option82Validate = false) :
    RoundTrips m ↔
      (printedCommands (settings m).dhcpRelay (settings m).hopCountIncrement
          (settings m).option82 (settings m).option82Validate policy rId).foldl
        Settings.exec (settings .empty) = settings m := by
  obtain ⟨m', hrun, hsettings⟩ := execLines_settings .empty
    (printedCommands_subset (settings m).dhcpRelay (settings m).hopCountIncrement
      (settings m).option82 hkeep)
  unfold RoundTrips
  rw [lines_printedCommands hpolicy hrId hkeep, hrun, ← hsettings]
  simp

end printed

/-! ## What is stored -/

/-- What the commands keep of the stored policy and remote ID: they are reset with option 82,
and with the relay disabled the policy is `drop`. -/
structure Settings.Stored (s : Settings) (policy : Option82Policy) (rId : RemoteId) : Prop where
  policy_eq : s.policy = policyName policy
  remoteId_eq : s.remoteId = remoteIdName rId
  option82 : s.option82Validate = true → s.option82 = true
  keep : s.policy = policyName .keep → s.option82Validate = false
  off : s.option82 = false → policy = .replace ∧ rId = .mac
  drop : s.option82 = true → s.dhcpRelay = false → policy = .drop

/-- What a change says about policy and remote ID next to option 82. -/
def Change.Paired (c : Change) : Prop :=
  (c.option82 = none → c.policy = none ∧ c.rId = none) ∧
    (c.option82 = some false → c.policy = some .replace ∧ c.rId = some .mac) ∧
    (c.option82 = some true → c.dhcpRelay = some true ∨ c.policy = some .drop) ∧
    (c.dhcpRelay = some false → c.option82 = some false)

instance (c : Change) : Decidable c.Paired := by
  unfold Change.Paired
  infer_instance

theorem change_paired (keeps : Bool) (d : Defun) :
    ∀ argv0 ∈ d.args, ∀ c ∈ (d.step (some (keeping keeps)) argv0).change, c.Paired := by
  cases d <;> decide +revert

theorem Settings.Stored.apply {s : Settings} {c : Change} {policy : Option82Policy}
    {rId : RemoteId} (h : s.Stored policy rId) (hc : c.Sound (s.policy = policyName .keep))
    (hpaired : c.Paired) : (s.apply c).Stored (c.policy.getD policy) (c.rId.getD rId) where
  policy_eq := by
    show (c.policy.map policyName).getD s.policy = _
    rw [h.policy_eq, Option.getD_map]
  remoteId_eq := by
    show (c.rId.map remoteIdName).getD s.remoteId = _
    rw [h.remoteId_eq, Option.getD_map]
  option82 := hc.option82 h.option82
  keep := hc.keep h.keep
  off := by
    obtain ⟨hleft, hreset, -⟩ := hpaired
    show c.option82.getD s.option82 = false → _
    rcases hoption : c.option82 with - | - | -
    · intro hoff
      rw [(hleft hoption).1, (hleft hoption).2]
      exact h.off hoff
    · intro _
      rw [(hreset hoption).1, (hreset hoption).2]
      exact ⟨rfl, rfl⟩
    · exact fun hfalse => absurd hfalse (by simp)
  drop := by
    obtain ⟨hleft, -, hset, hrelay⟩ := hpaired
    show c.option82.getD s.option82 = true → c.dhcpRelay.getD s.dhcpRelay = false → _
    rcases hoption : c.option82 with - | - | -
    · rcases hchange : c.dhcpRelay with - | - | -
      · rw [(hleft hoption).1]
        exact h.drop
      · exact absurd (hrelay hchange) (by simp [hoption])
      · exact fun _ hfalse => absurd hfalse (by simp)
    · exact fun hfalse => absurd hfalse (by simp)
    · intro _ hoff
      cases hset hoption with
      | inl hon =>
        rw [hon] at hoff
        exact absurd hoff (by simp)
      | inr hdrop => rw [hdrop, Option.getD_some]

theorem stored_of_reachable {m : SMap DhcpConfigKey} (h : Reachable AnyStep m) :
    ∃ policy rId, (settings m).Stored policy rId := by
  induction h with
  | empty => exact ⟨.replace, .mac, rfl, rfl, by decide, by decide, fun _ => ⟨rfl, rfl⟩, by decide⟩
  | @exec m m' d argv0 txn result h harg hallowed hexec ih =>
    rcases exec_cases m hexec with rfl | ⟨-, -, c, hchange, hsettings⟩
    · exact ih
    · obtain ⟨policy, rId, hstored⟩ := ih
      rw [step_keeping] at hchange
      rw [hsettings]
      exact ⟨_, _, hstored.apply (change_sound _ d argv0 harg c hchange).1
        (change_paired _ d argv0 harg c hchange)⟩

/-! ## The round trip -/

/-- Option 82 is enabled with the relay disabled, and is printed as a line that enables the
relay: one with both `validate` and `ip`, or with neither. -/
def EnablesRelay (s : Settings) : Prop :=
  s.option82 = true ∧ s.dhcpRelay = false ∧
    (s.option82Validate = true ↔ s.remoteId = remoteIdName .ip)

/-- The first two lines, executed on an empty map. -/
theorem printedCommands_relay (dhcpRelay hopCountIncrement : Bool) (policy : Option82Policy)
    (validate : Bool) (rId : RemoteId) :
    (printedCommands dhcpRelay hopCountIncrement false validate policy rId).foldl
        Settings.exec (settings .empty)
      = ⟨dhcpRelay, hopCountIncrement, false, false, policyName .replace, remoteIdName .mac⟩ := by
  cases dhcpRelay <;> cases hopCountIncrement <;> rfl

theorem printedCommands_option82 (dhcpRelay hopCountIncrement : Bool) (policy : Option82Policy)
    (validate : Bool) (rId : RemoteId) :
    printedCommands dhcpRelay hopCountIncrement true validate policy rId
      = printedCommands dhcpRelay hopCountIncrement false validate policy rId
        ++ [option82Command policy validate rId] := by
  unfold printedCommands
  rw [if_pos rfl, if_neg Bool.false_ne_true, List.append_nil]

/-- The command for option 82 leaves the relay alone if it is `drop` with `validate` or `ip`,
but not with both. -/
theorem exec_option82Command (dhcpRelay hopCountIncrement : Bool) {policy : Option82Policy}
    {validate : Bool} (rId : RemoteId) (h : policy = .keep → validate = false) :
    Settings.exec
        ⟨dhcpRelay, hopCountIncrement, false, false, policyName .replace, remoteIdName .mac⟩
        (option82Command policy validate rId)
      = ⟨dhcpRelay || decide (policy = .drop → (validate = true ↔ rId = .ip)), hopCountIncrement,
          true, validate, policyName policy, remoteIdName rId⟩ := by
  cases dhcpRelay <;> cases policy <;> cases validate <;> cases rId <;> first | rfl | simp at h

/-- Exactly the settings that enable the relay again do not round trip. -/
theorem roundTrips_iff {m : SMap DhcpConfigKey} (h : Reachable AnyStep m) :
    RoundTrips m ↔ ¬EnablesRelay (settings m) := by
  obtain ⟨policy, rId, hstored⟩ := stored_of_reachable h
  have hkeep : policy = .keep → (settings m).option82Validate = false := by
    intro heq
    exact hstored.keep (by rw [hstored.policy_eq, heq])
  have hip : (settings m).remoteId = remoteIdName .ip ↔ rId = .ip := by
    rw [hstored.remoteId_eq]
    cases rId <;> decide
  rw [roundTrips_iff_settings hstored.policy_eq hstored.remoteId_eq hkeep]
  unfold EnablesRelay
  rw [hip]
  cases hoption : (settings m).option82 with
  | false =>
    -- nothing is printed for option 82, and the rest is as in an empty map
    have hvalidate : (settings m).option82Validate = false := by
      cases hvalidate : (settings m).option82Validate with
      | false => rfl
      | true => rw [hstored.option82 hvalidate] at hoption; exact absurd hoption (by simp)
    obtain ⟨hreplace, hmac⟩ := hstored.off hoption
    rw [printedCommands_relay]
    simp only [Bool.false_eq_true, false_and, not_false_eq_true, iff_true]
    ext1
    · rfl
    · rfl
    · exact hoption.symm
    · exact hvalidate.symm
    · rw [hstored.policy_eq, hreplace]
    · rw [hstored.remoteId_eq, hmac]
  | true =>
    have hrelay (relay : Bool) : (⟨relay, (settings m).hopCountIncrement, true,
        (settings m).option82Validate, policyName policy, remoteIdName rId⟩ : Settings) = settings m
          ↔ relay = (settings m).dhcpRelay := by
      rw [Settings.ext_iff]
      exact ⟨fun h => h.1, fun h =>
        ⟨h, rfl, hoption.symm, rfl, hstored.policy_eq.symm, hstored.remoteId_eq.symm⟩⟩
    rw [printedCommands_option82, List.foldl_append, printedCommands_relay, List.foldl_cons,
      List.foldl_nil, exec_option82Command _ _ _ hkeep, hrelay]
    cases hoff : (settings m).dhcpRelay with
    | true => simp only [Bool.true_or, Bool.true_eq_false, false_and, and_false, not_false_eq_true]
    | false =>
      rw [Bool.false_or, decide_eq_false_iff_not]
      simp only [hstored.drop hoption hoff, true_imp_iff, true_and]

theorem roundTrips_iff_dropped :
    RoundTrips droppedConfig ↔ ¬EnablesRelay (settings droppedConfig) :=
  roundTrips_iff droppedConfig_reachable

/-- After `no dhcp-relay` and `dhcp-relay option 82 drop mac` the printed lines enable the relay. -/
theorem drop_does_not_roundTrip : ¬∀ m, Reachable AnyStep m → RoundTrips m := by
  intro h
  have hpolicy : (settings droppedConfig).policy = policyName .drop := by decide
  have hrId : (settings droppedConfig).remoteId = remoteIdName .mac := by decide
  have hrun := (roundTrips_iff_settings hpolicy hrId nofun).mp (h _ droppedConfig_reachable)
  have hrelay := congrArg Settings.dhcpRelay hrun
  exact absurd hrelay (by decide)

end Vty
end Udpfwd
end IpApps
