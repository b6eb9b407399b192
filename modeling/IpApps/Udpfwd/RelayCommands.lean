import IpApps.Udpfwd.GlobalConfig

/-!
# The relay commands

The `DEFUN`s of `dhcp_relay_vty.c` that write the `dhcp_config` column. Each marks the
features it updates in one bit map and gives their new status in another, next to a policy
and a remote ID; `dhcp_relay_config` writes them to the database.

`coherent_of_reachable` says that the option 82 settings stay coherent as long as option 82 is
not turned on by `dhcp-relay option 82 drop (validate|mac|ip)` while the relay is disabled.
-/

namespace IpApps
namespace Udpfwd
namespace Vty

/-! ## Writing a configuration -/

/-- The `FEATURE_CONFIG` of a command; `none` is `INVALID` or `REMOTE_ID_INVALID`. -/
structure ConfigValue where
  config : UInt16
  policy : Option Option82Policy
  rId : Option RemoteId
  deriving DecidableEq, Repr

/-- A `FEATURE_CONFIG` of zeros: `KEEP` and `REMOTE_ID_IP` are the first of their kinds. -/
def ConfigValue.zero : ConfigValue := ⟨0, some .keep, some .ip⟩

/-- The key of a feature in `update_feature_key`, which is called for these four only. -/
def featureKey : UdpfwdFeature → Option DhcpConfigKey
  | .udpBcastForwarder => none
  | .dhcpRelay => some .disabled
  | .dhcpRelayHopCountIncrement => some .hopCountIncrementDisabled
  | .dhcpRelayOption82 => some .option82Enabled
  | .dhcpRelayOption82Validate => some .option82ValidationEnabled

/-- `update_feature_key`. -/
def updateFeatureKey (status : Bool) (m : SMap DhcpConfigKey) (feature : UdpfwdFeature) :
    SMap DhcpConfigKey :=
  match featureKey feature with
  | none => m
  | some key => smapReplace m key (if status then "true".toList else "false".toList)

/-- `update_option_82_policy`. -/
def updateOption82Policy (policy : Option82Policy) (m : SMap DhcpConfigKey) :
    SMap DhcpConfigKey :=
  smapReplace m .option82Policy (policyName policy)

/-- `update_option_82_remote_id`. -/
def updateOption82RemoteId (rid : RemoteId) (m : SMap DhcpConfigKey) : SMap DhcpConfigKey :=
  smapReplace m .option82RemoteId (remoteIdName rid)

/-- The map `dhcp_relay_config` writes. The keys of the first two features say that the feature
is disabled. -/
def newDhcpConfig (updateConfig : UInt16) (configValue : ConfigValue)
    (m : SMap DhcpConfigKey) : SMap DhcpConfigKey :=
  let m :=
    if getFeatureStatus updateConfig .dhcpRelay then
      updateFeatureKey (!getFeatureStatus configValue.config .dhcpRelay) m .dhcpRelay
    else m
  let m :=
    if getFeatureStatus updateConfig .dhcpRelayHopCountIncrement then
      updateFeatureKey (!getFeatureStatus configValue.config .dhcpRelayHopCountIncrement) m
        .dhcpRelayHopCountIncrement
    else m
  let m :=
    if getFeatureStatus updateConfig .dhcpRelayOption82 then
      updateFeatureKey (getFeatureStatus configValue.config .dhcpRelayOption82) m
        .dhcpRelayOption82
    else m
  let m :=
    if getFeatureStatus updateConfig .dhcpRelayOption82Validate then
      updateFeatureKey (getFeatureStatus configValue.config .dhcpRelayOption82Validate) m
        .dhcpRelayOption82Validate
    else m
  let m :=
    match configValue.policy with
    | some policy => updateOption82Policy policy m
    | none => m
  match configValue.rId with
  | some rid => updateOption82RemoteId rid m
  | none => m

/-- `dhcp_relay_config`, on the `dhcp_config` column of the System row, if there is one. -/
def dhcpRelayConfig (txn : Txn) (updateConfig : UInt16) (configValue : ConfigValue)
    (ovsRow : Option (SMap DhcpConfigKey)) : CmdResult × Option (SMap DhcpConfigKey) :=
  if ¬ txn.created then (.ovsdbFailure, ovsRow)
  else
    match ovsRow with
    | none => (.ovsdbFailure, none)
    | some m =>
      if txn.committed then (.success, some (newDhcpConfig updateConfig configValue m))
      else (.ovsdbFailure, some m)

/-! ## The commands -/

/-- How a command ends: it returns, or it goes on to `dhcp_relay_config`. -/
inductive DefunStep
  | ret (result : CmdResult)
  | config (updateFeatures : UInt16) (configValue : ConfigValue)
  deriving DecidableEq, Repr

/-- A bit map with the bits of some features, set one after the other. -/
def enable (features : List UdpfwdFeature) : UInt16 :=
  features.foldl (fun value feature => setFeatureStatus value feature true) 0

/-- The remote ID named by an argument that is `mac` or `ip`. -/
def remoteIdArg (argv0 : CString) : RemoteId :=
  if argv0 = remoteIdName .ip then .ip else .mac

/-- `dhcp_relay_configuration`. -/
def dhcpRelayConfiguration (argv0 : Option CString) : DefunStep :=
  if argv0.isSome then
    .config (enable [.dhcpRelayHopCountIncrement])
      ⟨enable [.dhcpRelayHopCountIncrement], none, none⟩
  else .config (enable [.dhcpRelay]) ⟨enable [.dhcpRelay], none, none⟩

/-- `dhcp_relay_options_configuration`. -/
def dhcpRelayOptionsConfiguration (ovsRow : Option (SMap DhcpConfigKey)) (argv0 : CString) :
    DefunStep :=
  let updateFeatures := enable [.dhcpRelay, .dhcpRelayOption82]
  let config := enable [.dhcpRelay, .dhcpRelayOption82]
  let validate := fun value => setFeatureStatus value .dhcpRelayOption82Validate true
  if argv0 = "validate".toList then
    match ovsRow with
    | none => .ret .ovsdbFailure
    | some m =>
      -- Keep and validate options cannot be configured together.
      if m .option82Policy = some (policyName .keep) then .ret .success
      else .config (validate updateFeatures) ⟨validate config, none, none⟩
  else if argv0 = policyName .keep then
    .config (validate updateFeatures)
      ⟨setFeatureStatus config .dhcpRelayOption82Validate false, some .keep, none⟩
  else if argv0 = policyName .replace then .config updateFeatures ⟨config, some .replace, none⟩
  else .config updateFeatures ⟨config, some .drop, none⟩

/-- `dhcp_relay_keep_option_configuration`. -/
def dhcpRelayKeepOptionConfiguration (argv0 : Option CString) : DefunStep :=
  .config (enable [.dhcpRelay, .dhcpRelayOption82, .dhcpRelayOption82Validate])
    ⟨setFeatureStatus (enable [.dhcpRelay, .dhcpRelayOption82]) .dhcpRelayOption82Validate false,
      some .keep, argv0.map remoteIdArg⟩

/-- The commands for a policy with validation or a remote ID; the features they mark. -/
def policyOption (updateFeatures : UInt16) (policy : Option82Policy) (argv0 : Option CString) :
    DefunStep :=
  let config := enable [.dhcpRelay, .dhcpRelayOption82]
  match argv0 with
  -- the remote ID is the zero of `memset`
  | none => .config updateFeatures ⟨config, some policy, ConfigValue.zero.rId⟩
  | some arg =>
    if arg = "validate".toList then
      .config (setFeatureStatus updateFeatures .dhcpRelayOption82Validate true)
        ⟨setFeatureStatus config .dhcpRelayOption82Validate true, some policy, none⟩
    else .config updateFeatures ⟨config, some policy, some (remoteIdArg arg)⟩

/-- `dhcp_relay_drop_option_configuration`: the relay is not among the features it marks. -/
def dhcpRelayDropOptionConfiguration : Option CString → DefunStep :=
  policyOption (enable [.dhcpRelayOption82]) .drop

/-- `dhcp_relay_replace_option_configuration`. -/
def dhcpRelayReplaceOptionConfiguration : Option CString → DefunStep :=
  policyOption (enable [.dhcpRelay, .dhcpRelayOption82]) .replace

/-- The commands for validation with a policy and a remote ID. -/
def validateRemoteId (policy : Option82Policy) (argv0 : Option CString) : DefunStep :=
  .config (enable [.dhcpRelay, .dhcpRelayOption82, .dhcpRelayOption82Validate])
    ⟨enable [.dhcpRelay, .dhcpRelayOption82, .dhcpRelayOption82Validate], some policy,
      argv0.map remoteIdArg⟩

/-- `dhcp_relay_drop_validate_option_configuration`. -/
def dhcpRelayDropValidateOptionConfiguration : Option CString → DefunStep :=
  validateRemoteId .drop

/-- `dhcp_relay_replace_validate_option_configuration`. -/
def dhcpRelayReplaceValidateOptionConfiguration : Option CString → DefunStep :=
  validateRemoteId .replace

/-- `dhcp_relay_validate_drop_option_configuration`. -/
def dhcpRelayValidateDropOptionConfiguration : Option CString → DefunStep :=
  validateRemoteId .drop

/-- `dhcp_relay_validate_replace_option_configuration`, which sets the policy `DROP`. -/
def dhcpRelayValidateReplaceOptionConfiguration : Option CString → DefunStep :=
  validateRemoteId .drop

/-- The commands for a policy and a remote ID with validation. -/
def remoteIdValidate (policy : Option82Policy) (rid : RemoteId) (argv0 : Option CString) :
    DefunStep :=
  let features := enable [.dhcpRelay, .dhcpRelayOption82]
  let validate := fun value =>
    if argv0.isSome then setFeatureStatus value .dhcpRelayOption82Validate true else value
  .config (validate features) ⟨validate features, some policy, some rid⟩

/-- `dhcp_relay_drop_remote_id_mac_option_configuration`. -/
def dhcpRelayDropRemoteIdMacOptionConfiguration : Option CString → DefunStep :=
  remoteIdValidate .drop .mac

/-- `dhcp_relay_drop_remote_id_ip_option_configuration`. -/
def dhcpRelayDropRemoteIdIpOptionConfiguration : Option CString → DefunStep :=
  remoteIdValidate .drop .ip

/-- `dhcp_relay_replace_remote_id_mac_option_configuration`. -/
def dhcpRelayReplaceRemoteIdMacOptionConfiguration : Option CString → DefunStep :=
  remoteIdValidate .replace .mac

/-- `dhcp_relay_replace_remote_id_ip_option_configuration`. -/
def dhcpRelayReplaceRemoteIdIpOptionConfiguration : Option CString → DefunStep :=
  remoteIdValidate .replace .ip

/-- `dhcp_relay_validate_policy_option_configuration`. -/
def dhcpRelayValidatePolicyOptionConfiguration (argv0 : Option CString) : DefunStep :=
  let policy : Option82Policy :=
    match argv0 with
    | none => .keep  -- the zero of `memset`
    | some arg => if arg = policyName .replace then .replace else .drop
  .config (enable [.dhcpRelay, .dhcpRelayOption82, .dhcpRelayOption82Validate])
    ⟨enable [.dhcpRelay, .dhcpRelayOption82, .dhcpRelayOption82Validate], some policy, none⟩

/-- `no_dhcp_relay_option_configuration`. -/
def noDhcpRelayOptionConfiguration (argv0 : Option CString) : DefunStep :=
  if argv0.isSome then
    .config (enable [.dhcpRelayOption82Validate])
      ⟨setFeatureStatus 0 .dhcpRelayOption82Validate false, none, none⟩
  else
    let config := setFeatureStatus 0 .dhcpRelayOption82 false
    .config (enable [.dhcpRelayOption82, .dhcpRelayOption82Validate])
      ⟨setFeatureStatus config .dhcpRelayOption82Validate false, some .replace, some .mac⟩

/-- `no_dhcp_relay_configuration`. -/
def noDhcpRelayConfiguration (argv0 : Option CString) : DefunStep :=
  if argv0.isSome then
    .config (enable [.dhcpRelayHopCountIncrement])
      ⟨setFeatureStatus 0 .dhcpRelayHopCountIncrement false, none, none⟩
  else
    let config := setFeatureStatus 0 .dhcpRelay false
    let config := setFeatureStatus config .dhcpRelayOption82 false
    .config (enable [.dhcpRelay, .dhcpRelayOption82, .dhcpRelayOption82Validate])
      ⟨setFeatureStatus config .dhcpRelayOption82Validate false, some .replace, some .mac⟩

/-- The `DEFUN`s that write the relay settings, in the order of the source. -/
inductive Defun
  | dhcpRelay
  | options
  | keepOption
  | dropOption
  | dropValidateOption
  | dropRemoteIdMacOption
  | dropRemoteIdIpOption
  | replaceOption
  | replaceValidateOption
  | replaceRemoteIdMacOption
  | replaceRemoteIdIpOption
  | validatePolicyOption
  | validateDropOption
  | validateReplaceOption
  | noOption
  | noDhcpRelay
  deriving DecidableEq, Repr

namespace Defun

/-- The words of a command in front of its argument. -/
def words : Defun → String
  | dhcpRelay => "dhcp-relay"
  | options => "dhcp-relay option 82"
  | keepOption => "dhcp-relay option 82 keep"
  | dropOption => "dhcp-relay option 82 drop"
  | dropValidateOption => "dhcp-relay option 82 drop validate"
  | dropRemoteIdMacOption => "dhcp-relay option 82 drop mac"
  | dropRemoteIdIpOption => "dhcp-relay option 82 drop ip"
  | replaceOption => "dhcp-relay option 82 replace"
  | replaceValidateOption => "dhcp-relay option 82 replace validate"
  | replaceRemoteIdMacOption => "dhcp-relay option 82 replace mac"
  | replaceRemoteIdIpOption => "dhcp-relay option 82 replace ip"
  | validatePolicyOption => "dhcp-relay option 82 validate"
  | validateDropOption => "dhcp-relay option 82 validate drop"
  | validateReplaceOption => "dhcp-relay option 82 validate replace"
  | noOption => "no dhcp-relay option 82"
  | noDhcpRelay => "no dhcp-relay"

/-- The arguments the grammar of a command allows: one of the words in `(..)`, or the word in
`{..}` or none. -/
def args : Defun → List (Option CString)
  | dhcpRelay | noDhcpRelay => [none, some "hop-count-increment".toList]
  | options => ["keep", "validate", "drop", "replace"].map fun arg => some arg.toList
  | keepOption | dropValidateOption | replaceValidateOption | validateDropOption
  | validateReplaceOption => ["mac", "ip"].map fun arg => some arg.toList
  | dropOption | replaceOption => ["validate", "mac", "ip"].map fun arg => some arg.toList
  | dropRemoteIdMacOption | dropRemoteIdIpOption | replaceRemoteIdMacOption
  | replaceRemoteIdIpOption => [some "validate".toList]
  | validatePolicyOption => ["drop", "replace"].map fun arg => some arg.toList
  | noOption => [none, some "validate".toList]

/-- The body of a command up to `dhcp_relay_config`. -/
def step (ovsRow : Option (SMap DhcpConfigKey)) : Defun → Option CString → DefunStep
  | dhcpRelay, argv0 => dhcpRelayConfiguration argv0
  -- the grammar gives this command an argument
  | options, argv0 => dhcpRelayOptionsConfiguration ovsRow (argv0.getD [])
  | keepOption, argv0 => dhcpRelayKeepOptionConfiguration argv0
  | dropOption, argv0 => dhcpRelayDropOptionConfiguration argv0
  | dropValidateOption, argv0 => dhcpRelayDropValidateOptionConfiguration argv0
  | dropRemoteIdMacOption, argv0 => dhcpRelayDropRemoteIdMacOptionConfiguration argv0
  | dropRemoteIdIpOption, argv0 => dhcpRelayDropRemoteIdIpOptionConfiguration argv0
  | replaceOption, argv0 => dhcpRelayReplaceOptionConfiguration argv0
  | replaceValidateOption, argv0 => dhcpRelayReplaceValidateOptionConfiguration argv0
  | replaceRemoteIdMacOption, argv0 => dhcpRelayReplaceRemoteIdMacOptionConfiguration argv0
  | replaceRemoteIdIpOption, argv0 => dhcpRelayReplaceRemoteIdIpOptionConfiguration argv0
  | validatePolicyOption, argv0 => dhcpRelayValidatePolicyOptionConfiguration argv0
  | validateDropOption, argv0 => dhcpRelayValidateDropOptionConfiguration argv0
  | validateReplaceOption, argv0 => dhcpRelayValidateReplaceOptionConfiguration argv0
  | noOption, argv0 => noDhcpRelayOptionConfiguration argv0
  | noDhcpRelay, argv0 => noDhcpRelayConfiguration argv0

/-- A command with its argument. -/
def exec (d : Defun) (argv0 : Option CString) (txn : Txn)
    (ovsRow : Option (SMap DhcpConfigKey)) : CmdResult × Option (SMap DhcpConfigKey) :=
  match d.step ovsRow argv0 with
  | .ret result => (result, ovsRow)
  | .config updateFeatures configValue => dhcpRelayConfig txn updateFeatures configValue ovsRow

end Defun

/-! ## What a command changes -/

/-- The settings a command changes. -/
structure Change where
  dhcpRelay : Option Bool
  hopCountIncrement : Option Bool
  option82 : Option Bool
  option82Validate : Option Bool
  policy : Option Option82Policy
  rId : Option RemoteId
  deriving DecidableEq, Repr

/-- What `dhcp_relay_config` changes. -/
def changeOf (updateConfig : UInt16) (configValue : ConfigValue) : Change :=
  let state := fun feature =>
    if getFeatureStatus updateConfig feature then some (getFeatureStatus configValue.config feature)
    else none
  { dhcpRelay := state .dhcpRelay
    hopCountIncrement := state .dhcpRelayHopCountIncrement
    option82 := state .dhcpRelayOption82
    option82Validate := state .dhcpRelayOption82Validate
    policy := configValue.policy
    rId := configValue.rId }

/-- The settings of a map, as the commands show them. -/
@[ext]
structure Settings where
  dhcpRelay : Bool
  hopCountIncrement : Bool
  option82 : Bool
  option82Validate : Bool
  policy : CString
  remoteId : CString
  deriving DecidableEq, Repr

/-- The settings of a map: without a policy it is `replace`, without a remote ID `mac`. -/
def settings (m : SMap DhcpConfigKey) : Settings where
  dhcpRelay := !statusIsTrue (m .disabled)
  hopCountIncrement := !statusIsTrue (m .hopCountIncrementDisabled)
  option82 := statusIsTrue (m .option82Enabled)
  option82Validate := statusIsTrue (m .option82ValidationEnabled)
  policy := (m .option82Policy).getD (policyName .replace)
  remoteId := (m .option82RemoteId).getD (remoteIdName .mac)

/-- The settings after a change. -/
def Settings.apply (s : Settings) (c : Change) : Settings where
  dhcpRelay := c.dhcpRelay.getD s.dhcpRelay
  hopCountIncrement := c.hopCountIncrement.getD s.hopCountIncrement
  option82 := c.option82.getD s.option82
  option82Validate := c.option82Validate.getD s.option82Validate
  policy := (c.policy.map policyName).getD s.policy
  remoteId := (c.rId.map remoteIdName).getD s.remoteId

/-- What a command changes in a row with this policy, unless it returns before. -/
def DefunStep.change : DefunStep → Option Change
  | .ret _ => none
  | .config updateFeatures configValue => some (changeOf updateFeatures configValue)

section change

variable (m : SMap DhcpConfigKey)

/-- A feature key reads as the status that was written, if one was. -/
theorem statusIsTrue_written (update status : Bool) (old : Option CString) :
    statusIsTrue
        (if update then some (if status then "true".toList else "false".toList) else old)
      = (if update then some status else none).getD (statusIsTrue old) := by
  cases update with
  | false => rfl
  | true => cases status <;> rfl

/-- A feature key after the step of `dhcp_relay_config` for a feature. -/
theorem feature_apply (update status : Bool) (feature : UdpfwdFeature) (key : DhcpConfigKey) :
    (if update then updateFeatureKey status m feature else m) key =
      if update ∧ featureKey feature = some key then
        some (if status then "true".toList else "false".toList)
      else m key := by
  cases update with
  | false => simp
  | true =>
    unfold updateFeatureKey
    cases featureKey feature with
    | none => simp
    | some other => simp [eq_comm]

theorem policy_apply (policy : Option Option82Policy) (key : DhcpConfigKey) :
    (match policy with
      | some policy => updateOption82Policy policy m
      | none => m) key =
      if key = .option82Policy then (policy.map policyName).or (m key) else m key := by
  cases policy <;> simp [updateOption82Policy]

theorem rId_apply (rId : Option RemoteId) (key : DhcpConfigKey) :
    (match rId with
      | some rid => updateOption82RemoteId rid m
      | none => m) key =
      if key = .option82RemoteId then (rId.map remoteIdName).or (m key) else m key := by
  cases rId <;> simp [updateOption82RemoteId]

/-- Writing one setting after the other leaves what the change says. -/
theorem settings_newDhcpConfig (updateConfig : UInt16) (configValue : ConfigValue) :
    settings (newDhcpConfig updateConfig configValue m)
      = (settings m).apply (changeOf updateConfig configValue) := by
  unfold newDhcpConfig changeOf settings Settings.apply
  simp only [rId_apply, policy_apply, feature_apply, featureKey]
  simp only [reduceCtorEq, Option.some.injEq, and_true, and_false, if_false, if_true,
    statusIsTrue_written]
  ext1
  · dsimp only
    split <;> simp
  · dsimp only
    split <;> simp
  · rfl
  · rfl
  · dsimp only
    cases configValue.policy <;> rfl
  · dsimp only
    cases configValue.rId <;> rfl

/-- A command leaves the row alone, or makes its change. -/
theorem exec_cases {d : Defun} {argv0 : Option CString} {txn : Txn} {result : CmdResult}
    {m' : SMap DhcpConfigKey} (h : d.exec argv0 txn (some m) = (result, some m')) :
    m' = m ∨ txn.created ∧ txn.committed ∧
      ∃ c, (d.step (some m) argv0).change = some c ∧ settings m' = (settings m).apply c := by
  unfold Defun.exec at h
  cases hstep : d.step (some m) argv0 with
  | ret result' =>
    rw [hstep] at h
    left
    exact (Option.some.inj (Prod.mk.inj h).2).symm
  | config updateFeatures configValue =>
    rw [hstep] at h
    simp only [dhcpRelayConfig] at h
    split at h
    · left
      exact (Option.some.inj (Prod.mk.inj h).2).symm
    · rename_i hcreated
      split at h
      · rename_i hcommitted
        right
        refine ⟨not_not.mp hcreated, hcommitted, _, rfl, ?_⟩
        rw [← Option.some.inj (Prod.mk.inj h).2]
        exact settings_newDhcpConfig m updateFeatures configValue
      · left
        exact (Option.some.inj (Prod.mk.inj h).2).symm

/-- The policy `keep` is shown if and only if it is stored. -/
theorem settings_keep_iff :
    (settings m).policy = policyName .keep ↔ m .option82Policy = some (policyName .keep) := by
  have hread : (settings m).policy = (m .option82Policy).getD (policyName .replace) := rfl
  rw [hread]
  cases m .option82Policy with
  | none => decide
  | some policy => rw [Option.getD_some, Option.some_inj]

end change

/-- A map with the policy `keep` or without any. -/
def keeping (keeps : Bool) : SMap DhcpConfigKey :=
  fun _ => if keeps then some (policyName .keep) else none

/-- The commands look at nothing in the map but whether the policy is `keep`. -/
theorem step_keeping (d : Defun) (m : SMap DhcpConfigKey) (argv0 : Option CString) :
    d.step (some m) argv0
      = d.step (some (keeping ((settings m).policy = policyName .keep))) argv0 := by
  have hread : keeping ((settings m).policy = policyName .keep) .option82Policy
      = some (policyName .keep) ↔ m .option82Policy = some (policyName .keep) := by
    rw [← settings_keep_iff m]
    unfold keeping
    by_cases hkeep : (settings m).policy = policyName .keep
    · simp only [hkeep, decide_true, if_true]
    · simp only [hkeep, decide_false, Bool.false_eq_true, if_false, reduceCtorEq]
  cases d with
  | options => simp only [Defun.step, dhcpRelayOptionsConfiguration, hread]
  | _ => simp only [Defun.step]

/-! ## Coherent settings -/

/-- Validation needs option 82, option 82 needs the relay, and the policy `keep` excludes
validation. -/
structure Settings.Coherent (s : Settings) : Prop where
  option82 : s.option82Validate = true → s.option82 = true
  dhcpRelay : s.option82 = true → s.dhcpRelay = true
  keep : s.policy = policyName .keep → s.option82Validate = false

/-- What a change must say to keep coherent settings coherent, apart from the relay that
option 82 needs; `keeps` tells whether the policy was `keep`. -/
def Change.Sound (keeps : Bool) (c : Change) : Prop :=
  (c.option82Validate = some true → c.option82 = some true) ∧
    (c.option82 = some false → c.option82Validate = some false) ∧
    (c.dhcpRelay = some false → c.option82 = some false) ∧
    (c.policy = some .keep → c.option82Validate = some false) ∧
    (c.option82Validate = some true → c.policy = none → keeps = false)

instance (keeps : Bool) (c : Change) : Decidable (c.Sound keeps) := by
  unfold Change.Sound
  infer_instance

/-- Every command but one turns the relay on with option 82. -/
theorem change_sound (keeps : Bool) (d : Defun) :
    ∀ argv0 ∈ d.args, ∀ c ∈ (d.step (some (keeping keeps)) argv0).change,
      c.Sound keeps ∧ (c.option82 = some true → c.dhcpRelay = some true ∨ d = .dropOption) := by
  cases d <;> decide +revert

section sound

variable {s : Settings} {c : Change}

theorem Change.Sound.option82 (hc : c.Sound (s.policy = policyName .keep))
    (h : s.option82Validate = true → s.option82 = true) :
    (s.apply c).option82Validate = true → (s.apply c).option82 = true := by
  obtain ⟨hon, hoff, -⟩ := hc
  show c.option82Validate.getD s.option82Validate = true → c.option82.getD s.option82 = true
  rcases hvalidate : c.option82Validate with - | - | -
  · rcases hoption : c.option82 with - | - | -
    · exact h
    · exact absurd (hoff hoption) (by simp [hvalidate])
    · exact fun _ => rfl
  · exact fun hfalse => absurd hfalse (by simp)
  · rw [hon hvalidate]
    exact fun _ => rfl

theorem policyName_inj {policy policy' : Option82Policy} :
    policyName policy = policyName policy' ↔ policy = policy' := by
  cases policy <;> cases policy' <;> decide

theorem Change.Sound.keep (hc : c.Sound (s.policy = policyName .keep))
    (h : s.policy = policyName .keep → s.option82Validate = false) :
    (s.apply c).policy = policyName .keep → (s.apply c).option82Validate = false := by
  obtain ⟨-, -, -, hkeep, hkept⟩ := hc
  show (c.policy.map policyName).getD s.policy = policyName .keep →
    c.option82Validate.getD s.option82Validate = false
  intro hpolicy
  rcases hchange : c.policy with - | policy
  · rw [hchange] at hpolicy
    rcases hvalidate : c.option82Validate with - | - | -
    · exact h hpolicy
    · rfl
    · exact absurd (hkept hvalidate hchange) (by simpa using hpolicy)
  · rw [hchange] at hpolicy
    have heq : policy = .keep := policyName_inj.mp hpolicy
    rw [hkeep (by rw [hchange, heq])]
    rfl

/-- The settings stay coherent under a sound change that leaves option 82 with the relay. -/
theorem Settings.Coherent.apply (h : s.Coherent) (hc : c.Sound (s.policy = policyName .keep))
    (hrelay : c.option82 = some true → c.dhcpRelay.getD s.dhcpRelay = true) :
    (s.apply c).Coherent where
  option82 := hc.option82 h.option82
  keep := hc.keep h.keep
  dhcpRelay := by
    show c.option82.getD s.option82 = true → c.dhcpRelay.getD s.dhcpRelay = true
    rcases hoption : c.option82 with - | - | -
    · rcases hrelayChange : c.dhcpRelay with - | - | -
      · exact h.dhcpRelay
      · exact absurd (hc.2.2.1 hrelayChange) (by simp [hoption])
      · exact fun _ => rfl
    · exact fun hfalse => absurd hfalse (by simp)
    · exact fun _ => hrelay hoption

end sound

/-! ## Runs of commands -/

/-- The maps that commands lead to from the empty one, by steps that are `allowed`. -/
inductive Reachable (allowed : SMap DhcpConfigKey → Defun → Txn → Prop) :
    SMap DhcpConfigKey → Prop
  | empty : Reachable allowed .empty
  | exec {m m' : SMap DhcpConfigKey} {d : Defun} {argv0 : Option CString} {txn : Txn}
      {result : CmdResult} (h : Reachable allowed m) (harg : argv0 ∈ d.args)
      (hallowed : allowed m d txn) (hexec : d.exec argv0 txn (some m) = (result, some m')) :
      Reachable allowed m'

/-- Any command may follow any other. -/
abbrev AnyStep : SMap DhcpConfigKey → Defun → Txn → Prop := fun _ _ _ => True

/-- A command for the policy `drop` with one more word is not carried out while the relay is
disabled. -/
def DropNeedsRelay (m : SMap DhcpConfigKey) (d : Defun) (txn : Txn) : Prop :=
  d = .dropOption → txn.created → txn.committed → (settings m).dhcpRelay = true

/-- The settings are coherent after any run in which the relay is enabled whenever
`dhcp-relay option 82 drop (validate|mac|ip)` is carried out. -/
theorem coherent_of_reachable {m : SMap DhcpConfigKey} (h : Reachable DropNeedsRelay m) :
    (settings m).Coherent := by
  induction h with
  | empty => exact ⟨by decide, by decide, by decide⟩
  | @exec m m' d argv0 txn result h harg hallowed hexec ih =>
    rcases exec_cases m hexec with rfl | ⟨hcreated, hcommitted, c, hchange, hsettings⟩
    · exact ih
    · rw [step_keeping] at hchange
      obtain ⟨hsound, hrelay⟩ := change_sound _ d argv0 harg c hchange
      rw [hsettings]
      apply ih.apply hsound
      intro hoption
      cases hrelay hoption with
      | inl hon => rw [hon, Option.getD_some]
      | inr hdrop =>
        -- the command leaves the relay as it is
        rcases hrelay' : c.dhcpRelay with - | - | -
        · exact hallowed hdrop hcreated hcommitted
        · exact absurd (hsound.2.2.1 hrelay') (by simp [hoption])
        · rfl

/-- A command whose transaction goes through. -/
theorem Reachable.commit {allowed : SMap DhcpConfigKey → Defun → Txn → Prop}
    {m : SMap DhcpConfigKey} (h : Reachable allowed m) (d : Defun) {argv0 : Option CString}
    (harg : argv0 ∈ d.args) (hallowed : allowed m d committedTxn) {updateFeatures : UInt16}
    {configValue : ConfigValue}
    (hstep : d.step (some m) argv0 = .config updateFeatures configValue) :
    Reachable allowed (newDhcpConfig updateFeatures configValue m) := by
  have hexec : d.exec argv0 committedTxn (some m)
      = (.success, some (newDhcpConfig updateFeatures configValue m)) := by
    unfold Defun.exec
    rw [hstep]
    rfl
  exact h.exec harg hallowed hexec

/-- The map after `dhcp-relay option 82 validate`. -/
def validatedConfig : SMap DhcpConfigKey :=
  newDhcpConfig (enable [.dhcpRelay, .dhcpRelayOption82, .dhcpRelayOption82Validate])
    ⟨enable [.dhcpRelay, .dhcpRelayOption82, .dhcpRelayOption82Validate], none, none⟩ .empty

theorem coherent_of_reachable_validate : (settings validatedConfig).Coherent :=
  coherent_of_reachable
    (@Reachable.commit DropNeedsRelay .empty .empty .options (some "validate".toList) (by decide)
      nofun _ _ rfl)

/-- The map after `no dhcp-relay`. -/
def disabledConfig : SMap DhcpConfigKey :=
  newDhcpConfig (enable [.dhcpRelay, .dhcpRelayOption82, .dhcpRelayOption82Validate])
    ⟨0, some .replace, some .mac⟩ .empty

/-- The map after `no dhcp-relay` and `dhcp-relay option 82 drop mac`. -/
def droppedConfig : SMap DhcpConfigKey :=
  newDhcpConfig (enable [.dhcpRelayOption82])
    ⟨enable [.dhcpRelay, .dhcpRelayOption82], some .drop, some .mac⟩ disabledConfig

theorem droppedConfig_reachable : Reachable AnyStep droppedConfig := by
  have hdisabled : Reachable AnyStep disabledConfig :=
    @Reachable.commit AnyStep .empty .empty .noDhcpRelay none (by decide) trivial _ _ rfl
  exact @Reachable.commit AnyStep disabledConfig hdisabled .dropOption (some "mac".toList)
    (by decide) trivial _ _ rfl

/-- Option 82 is enabled while the relay is disabled. -/
theorem drop_leaves_relay_disabled : ¬∀ m, Reachable AnyStep m → (settings m).Coherent := by
  intro h
  have hrelay := (h droppedConfig droppedConfig_reachable).dhcpRelay (by decide)
  exact absurd hrelay (by decide)

end Vty
end Udpfwd
end IpApps
