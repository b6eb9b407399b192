import IpApps.Ovsdb
import IpApps.Udpfwd.Host
import Mathlib.Data.List.Infix

/-!
# The global configuration

The six settings of the `dhcp_config` column are read twice: by the daemon, when it is
told that the column changed, and by the command that shows them. The daemon compares a
value with `strncmp` bounded by the length of the value, so that every beginning of
`true`, `replace`, `drop` or `ip` stands for the whole word, the empty string included;
the command compares with `strcmp`, or prints the value as it is. The defaults for a
missing key agree but for the policy: the daemon keeps, while the command shows, and the
initial configuration has, `replace`.

`globalconfigUpdate_displayed_iff` says for which maps the two readings agree.
-/

namespace IpApps
namespace Udpfwd

/-! ## The feature bit map -/

/-- The position of a feature in the bit map. -/
def UdpfwdFeature.pos : UdpfwdFeature → ℕ
  | udpBcastForwarder => 0
  | dhcpRelay => 1
  | dhcpRelayHopCountIncrement => 2
  | dhcpRelayOption82 => 3
  | dhcpRelayOption82Validate => 5

/-- `set_feature_status`. -/
def setFeatureStatus (value : UInt16) (feature : UdpfwdFeature) (status : Bool) : UInt16 :=
  if status then value ||| feature.bit else value &&& ~~~feature.bit

theorem UdpfwdFeature.toBitVec_bit (feature : UdpfwdFeature) :
    feature.bit.toBitVec = BitVec.twoPow 16 feature.pos := by
  cases feature <;> rfl

theorem UdpfwdFeature.pos_lt (feature : UdpfwdFeature) : feature.pos < 16 := by
  cases feature <;> decide

theorem UdpfwdFeature.pos_inj {feature other : UdpfwdFeature} :
    feature.pos = other.pos ↔ feature = other := by
  cases feature <;> cases other <;> decide

/-- A feature is enabled when the bit at its position is set. -/
theorem getFeatureStatus_eq (value : UInt16) (feature : UdpfwdFeature) :
    getFeatureStatus value feature = value.toBitVec.getLsbD feature.pos := by
  have hone : BitVec.twoPow 16 feature.pos ≠ 0#16 := by
    intro hzero
    have hbit := congrArg (fun v => v.getLsbD feature.pos) hzero
    simp [feature.pos_lt] at hbit
  have hand : (value &&& feature.bit).toBitVec
      = if value.toBitVec.getLsbD feature.pos then BitVec.twoPow 16 feature.pos else 0#16 := by
    rw [UInt16.toBitVec_and, feature.toBitVec_bit, BitVec.and_twoPow]
  unfold getFeatureStatus
  rw [Bool.eq_iff_iff, decide_eq_true_eq, ne_eq, ← UInt16.toBitVec_inj, hand]
  cases value.toBitVec.getLsbD feature.pos <;> simp [hone]

/-- Setting a feature changes no other one. -/
theorem getFeatureStatus_setFeatureStatus (value : UInt16) (feature other : UdpfwdFeature)
    (status : Bool) :
    getFeatureStatus (setFeatureStatus value feature status) other =
      if other = feature then status else getFeatureStatus value other := by
  rw [getFeatureStatus_eq, getFeatureStatus_eq]
  have hlt := other.pos_lt
  unfold setFeatureStatus
  by_cases heq : other = feature
  · subst heq
    rw [if_pos rfl]
    cases status <;> simp [other.toBitVec_bit, hlt]
  · have hne : other.pos ≠ feature.pos := mt UdpfwdFeature.pos_inj.mp heq
    rw [if_neg heq]
    cases status <;> simp [feature.toBitVec_bit, hlt, hne]

/-! ## What the database holds -/

/-- The keys of the `dhcp_config` column of the System table: those the daemon reads,
`SYSTEM_DHCP_CONFIG_MAP_V4RELAY_*`, and any others. -/
inductive DhcpConfigKey
  | disabled
  | hopCountIncrementDisabled
  | option82Enabled
  | option82ValidationEnabled
  | option82Policy
  | option82RemoteId
  | other (key : CString)
  deriving DecidableEq, Repr

/-- The keys of its `other_config` column: `SYSTEM_OTHER_CONFIG_MAP_UDP_BCAST_FWD_ENABLED`
and `SYSTEM_OTHER_CONFIG_MAP_STATS_UPDATE_INTERVAL`. -/
inductive OtherConfigKey
  | udpBcastFwdEnabled
  | statsUpdateInterval
  deriving DecidableEq, Repr

/-- The row of the System table, with what the IDL says about its changes. -/
structure SystemRow where
  rowModified : Bool
  dhcpConfigModified : Bool
  otherConfigModified : Bool
  dhcpConfig : SMap DhcpConfigKey
  otherConfig : SMap OtherConfigKey

/-! ## The daemon -/

/-- `STATS_UPDATE_DEFAULT_INTERVAL`. -/
def statsUpdateDefaultInterval : Int32 := 5000

/-- The members of `UDPFWD_CTRL_CB` that the global configuration sets. -/
structure GlobalConfig where
  featureConfig : FeatureConfig
  statsInterval : Int32
  deriving DecidableEq, Repr

/-- `udpfwd_set_default_config`. -/
def udpfwdSetDefaultConfig (cb : GlobalConfig) : GlobalConfig :=
  let config := setFeatureStatus cb.featureConfig.config .udpBcastForwarder false
  let config := setFeatureStatus config .dhcpRelay true
  let config := setFeatureStatus config .dhcpRelayHopCountIncrement true
  let config := setFeatureStatus config .dhcpRelayOption82 false
  let config := setFeatureStatus config .dhcpRelayOption82Validate false
  -- The comment of the source says "keep" here.
  { featureConfig := { config := config, policy := .replace, rId := .mac }
    statsInterval := statsUpdateDefaultInterval }

/-- `update_feature_state`. -/
def updateFeatureState (cfg : FeatureConfig) (feature : UdpfwdFeature) (state : Bool) :
    FeatureConfig :=
  if state ≠ getFeatureStatus cfg.config feature then
    { cfg with config := setFeatureStatus cfg.config feature state }
  else cfg

/-- `value && !strncmp(value, word, strlen(value))`. -/
def abbreviates (value : Option CString) (word : CString) : Bool :=
  match value with
  | some value => Libc.strncmp value word value.length = 0
  | none => false

/-- `update_option82_policy`. -/
def updateOption82Policy (cfg : FeatureConfig) (value : Option CString) : FeatureConfig :=
  let policy : Option82Policy :=
    if abbreviates value "replace".toList then .replace
    else if abbreviates value "drop".toList then .drop
    else .keep
  if policy ≠ cfg.policy then { cfg with policy := policy } else cfg

/-- `update_option82_remote_id`. -/
def updateOption82RemoteId (cfg : FeatureConfig) (value : Option CString) : FeatureConfig :=
  let rId : RemoteId := if abbreviates value "ip".toList then .ip else .mac
  if rId ≠ cfg.rId then { cfg with rId := rId } else cfg

/-- `update_stats_refresh_interval`. -/
def updateStatsRefreshInterval (statsInterval : Int32) (value : CString) : Int32 :=
  if Libc.atoi value ≠ statsInterval then Libc.atoi value else statsInterval

/-- The part of `udpfwd_process_globalconfig_update` for a change of `dhcp_config`. -/
def dhcpConfigUpdate (cfg : FeatureConfig) (dhcpConfig : SMap DhcpConfigKey) :
    FeatureConfig :=
  let state := !abbreviates (dhcpConfig .disabled) "true".toList
  let cfg := updateFeatureState cfg .dhcpRelay state
  let state := !abbreviates (dhcpConfig .hopCountIncrementDisabled) "true".toList
  let cfg := updateFeatureState cfg .dhcpRelayHopCountIncrement state
  let state := abbreviates (dhcpConfig .option82Enabled) "true".toList
  let cfg := updateFeatureState cfg .dhcpRelayOption82 state
  let state := abbreviates (dhcpConfig .option82ValidationEnabled) "true".toList
  let cfg := updateFeatureState cfg .dhcpRelayOption82Validate state
  let cfg := updateOption82Policy cfg (dhcpConfig .option82Policy)
  updateOption82RemoteId cfg (dhcpConfig .option82RemoteId)

/-- The part of `udpfwd_process_globalconfig_update` for a change of `other_config`. -/
def otherConfigUpdate (cb : GlobalConfig) (otherConfig : SMap OtherConfigKey) :
    GlobalConfig :=
  let state := abbreviates (otherConfig .udpBcastFwdEnabled) "true".toList
  let cfg := updateFeatureState cb.featureConfig .udpBcastForwarder state
  match otherConfig .statsUpdateInterval with
  | some value => ⟨cfg, updateStatsRefreshInterval cb.statsInterval value⟩
  | none => ⟨cfg, cb.statsInterval⟩

/-- `udpfwd_process_globalconfig_update`. -/
def udpfwdProcessGlobalconfigUpdate (cb : GlobalConfig) (systemRow : Option SystemRow) :
    GlobalConfig :=
  match systemRow with
  | none => cb
  | some row =>
    if !row.rowModified then cb
    else
      let cb :=
        if row.dhcpConfigModified then
          { cb with featureConfig := dhcpConfigUpdate cb.featureConfig row.dhcpConfig }
        else cb
      if row.otherConfigModified then otherConfigUpdate cb row.otherConfig else cb

/-! ## The command -/

/-- `policy_name`. -/
def policyName : Option82Policy → CString
  | .keep => "keep".toList
  | .drop => "drop".toList
  | .replace => "replace".toList

/-- `remote_id_name`. -/
def remoteIdName : RemoteId → CString
  | .ip => "ip".toList
  | .mac => "mac".toList

/-- What one `vty_out` prints: its format up to the value, the value, and `VTY_NEWLINE`. -/
def vtyLine (newline : CString) (label : String) (value : CString) : CString :=
  label.toList ++ value ++ newline

/-- The lines of `show_dhcp_relay_config`. -/
def relayConfigLines (newline relay hopCount option82 validation policy remoteId : CString) :
    List CString :=
  [vtyLine newline "\n DHCP Relay Agent                 : " relay,
    vtyLine newline " DHCP Request Hop Count Increment : " hopCount,
    vtyLine newline " Option 82                        : " option82,
    vtyLine newline " Response Validation              : " validation,
    vtyLine newline " Option 82 Handle Policy          : " policy,
    vtyLine newline " Remote ID                        : " remoteId]

/-- The text for a setting that is on or off. -/
def stateName (state : Bool) : CString :=
  if state then "enabled".toList else "disabled".toList

/-- `status && !strcmp(status, "true")`. -/
def statusIsTrue (status : Option CString) : Bool := status = some "true".toList

/-- `show_dhcp_relay_config` up to the statistics: what it prints, or `none` for
`CMD_OVSDB_FAILURE`. -/
def showDhcpRelayConfig (newline : CString) (ovsRow : Option SystemRow) :
    Option (List CString) :=
  ovsRow.map fun row =>
    relayConfigLines newline
      (if statusIsTrue (row.dhcpConfig .disabled) then "disabled".toList
        else "enabled".toList)
      (if statusIsTrue (row.dhcpConfig .hopCountIncrementDisabled) then "disabled".toList
        else "enabled".toList)
      (if statusIsTrue (row.dhcpConfig .option82Enabled) then "enabled".toList
        else "disabled".toList)
      (if statusIsTrue (row.dhcpConfig .option82ValidationEnabled) then "enabled".toList
        else "disabled".toList)
      ((row.dhcpConfig .option82Policy).getD (policyName .replace))
      ((row.dhcpConfig .option82RemoteId).getD (remoteIdName .mac))

/-! ## What the daemon decides -/

/-- The settings of the daemon that the command shows. -/
structure RelaySettings where
  dhcpRelay : Bool
  hopCountIncrement : Bool
  option82 : Bool
  option82Validate : Bool
  policy : Option82Policy
  rId : RemoteId
  deriving DecidableEq, Repr

/-- The settings as the packet path reads them. -/
def FeatureConfig.relaySettings (cfg : FeatureConfig) : RelaySettings where
  dhcpRelay := cfg.enabled .dhcpRelay
  hopCountIncrement := cfg.enabled .dhcpRelayHopCountIncrement
  option82 := cfg.enabled .dhcpRelayOption82
  option82Validate := cfg.enabled .dhcpRelayOption82Validate
  policy := cfg.policy
  rId := cfg.rId

/-- The settings in the form of the command. -/
def RelaySettings.lines (newline : CString) (settings : RelaySettings) : List CString :=
  relayConfigLines newline (stateName settings.dhcpRelay) (stateName settings.hopCountIncrement)
    (stateName settings.option82) (stateName settings.option82Validate)
    (policyName settings.policy) (remoteIdName settings.rId)

section updates

variable (cfg : FeatureConfig)

@[simp]
theorem updateFeatureState_enabled (feature other : UdpfwdFeature) (state : Bool) :
    (updateFeatureState cfg feature state).enabled other =
      if other = feature then state else cfg.enabled other := by
  unfold updateFeatureState FeatureConfig.enabled
  by_cases hstate : state = getFeatureStatus cfg.config feature
  · rw [if_neg (not_not_intro hstate)]
    split
    · rename_i heq
      rw [heq, hstate]
    · rfl
  · rw [if_pos hstate]
    exact getFeatureStatus_setFeatureStatus cfg.config feature other state

@[simp]
theorem updateFeatureState_policy (feature : UdpfwdFeature) (state : Bool) :
    (updateFeatureState cfg feature state).policy = cfg.policy := by
  unfold updateFeatureState
  split <;> rfl

@[simp]
theorem updateFeatureState_rId (feature : UdpfwdFeature) (state : Bool) :
    (updateFeatureState cfg feature state).rId = cfg.rId := by
  unfold updateFeatureState
  split <;> rfl

/-- Whatever the policy was, it becomes the one of the value. -/
theorem updateOption82Policy_eq (value : Option CString) :
    updateOption82Policy cfg value =
      { cfg with policy :=
          if abbreviates value "replace".toList then .replace
          else if abbreviates value "drop".toList then .drop
          else .keep } := by
  unfold updateOption82Policy
  dsimp only
  generalize (if abbreviates value "replace".toList then Option82Policy.replace
    else if abbreviates value "drop".toList then .drop else .keep) = policy
  by_cases hsame : policy = cfg.policy
  · rw [if_neg (not_not_intro hsame), hsame]
  · exact if_pos hsame

/-- Whatever the remote ID was, it becomes the one of the value. -/
theorem updateOption82RemoteId_eq (value : Option CString) :
    updateOption82RemoteId cfg value =
      { cfg with rId := if abbreviates value "ip".toList then .ip else .mac } := by
  unfold updateOption82RemoteId
  dsimp only
  generalize (if abbreviates value "ip".toList then RemoteId.ip else .mac) = rId
  by_cases hsame : rId = cfg.rId
  · rw [if_neg (not_not_intro hsame), hsame]
  · exact if_pos hsame

/-- The settings after a change of `dhcp_config` do not depend on those before. -/
theorem dhcpConfigUpdate_relaySettings (dhcpConfig : SMap DhcpConfigKey) :
    (dhcpConfigUpdate cfg dhcpConfig).relaySettings =
      { dhcpRelay := !abbreviates (dhcpConfig .disabled) "true".toList
        hopCountIncrement := !abbreviates (dhcpConfig .hopCountIncrementDisabled) "true".toList
        option82 := abbreviates (dhcpConfig .option82Enabled) "true".toList
        option82Validate := abbreviates (dhcpConfig .option82ValidationEnabled) "true".toList
        policy :=
          if abbreviates (dhcpConfig .option82Policy) "replace".toList then .replace
          else if abbreviates (dhcpConfig .option82Policy) "drop".toList then .drop
          else .keep
        rId := if abbreviates (dhcpConfig .option82RemoteId) "ip".toList then .ip else .mac } := by
  unfold dhcpConfigUpdate FeatureConfig.relaySettings
  rw [updateOption82RemoteId_eq, updateOption82Policy_eq]
  have henabled (c : FeatureConfig) (p : Option82Policy) (r : RemoteId) (f : UdpfwdFeature) :
      FeatureConfig.enabled { c with policy := p, rId := r } f = c.enabled f := rfl
  simp only [henabled, updateFeatureState_enabled, reduceCtorEq, if_true, if_false]

/-- A change of `other_config` leaves the settings alone. -/
theorem otherConfigUpdate_relaySettings (cb : GlobalConfig) (otherConfig : SMap OtherConfigKey) :
    (otherConfigUpdate cb otherConfig).featureConfig.relaySettings =
      cb.featureConfig.relaySettings := by
  have hcfg : (otherConfigUpdate cb otherConfig).featureConfig =
      updateFeatureState cb.featureConfig .udpBcastForwarder
        (abbreviates (otherConfig .udpBcastFwdEnabled) "true".toList) := by
    unfold otherConfigUpdate
    split <;> rfl
  rw [hcfg]
  simp [FeatureConfig.relaySettings]

/-- The settings after a processed change of `dhcp_config` are those the map gives. -/
theorem udpfwdProcessGlobalconfigUpdate_relaySettings (cb : GlobalConfig) (row : SystemRow)
    (hrow : row.rowModified = true) (hcol : row.dhcpConfigModified = true) :
    (udpfwdProcessGlobalconfigUpdate cb (some row)).featureConfig.relaySettings =
      (dhcpConfigUpdate cb.featureConfig row.dhcpConfig).relaySettings := by
  unfold udpfwdProcessGlobalconfigUpdate
  simp only [hrow, hcol, Bool.not_true, Bool.false_eq_true, if_false, if_true]
  split
  · rw [otherConfigUpdate_relaySettings]
  · rfl

end updates

/-- The initial settings. -/
theorem udpfwdSetDefaultConfig_relaySettings (cb : GlobalConfig) :
    (udpfwdSetDefaultConfig cb).featureConfig.relaySettings =
      { dhcpRelay := true, hopCountIncrement := true, option82 := false
        option82Validate := false, policy := .replace, rId := .mac } := by
  simp [udpfwdSetDefaultConfig, FeatureConfig.relaySettings, FeatureConfig.enabled,
    getFeatureStatus_setFeatureStatus]

/-! ## When the two readings agree -/

/-- A value is taken for a word when it is a beginning of it. -/
theorem abbreviates_iff (value : Option CString) (word : CString) :
    abbreviates value word = true ↔ ∃ v, value = some v ∧ v <+: word := by
  cases value with
  | none => simp [abbreviates]
  | some v => simp [abbreviates, Libc.strncmp_length_eq_zero_iff]

theorem vtyLine_inj (newline : CString) (label : String) {value value' : CString} :
    vtyLine newline label value = vtyLine newline label value' ↔ value = value' := by
  unfold vtyLine
  rw [List.append_left_inj, List.append_right_inj]

/-- The lines are equal when the values in them are. -/
theorem relayConfigLines_inj (newline : CString) {r h o v p i r' h' o' v' p' i' : CString} :
    relayConfigLines newline r h o v p i = relayConfigLines newline r' h' o' v' p' i' ↔
      r = r' ∧ h = h' ∧ o = o' ∧ v = v' ∧ p = p' ∧ i = i' := by
  unfold relayConfigLines
  simp only [List.cons.injEq, vtyLine_inj, and_true]

/-- A value of a switch is the word `true` or is not taken for it. -/
def IsSwitch (value : Option CString) : Prop :=
  ∀ v, value = some v → v <+: "true".toList → v = "true".toList

/-- A `dhcp_config` column without abbreviations: the switches are missing, `true` or
something else altogether; the policy is there and is one of the three; the remote ID is
missing or one of the two. -/
structure WrittenOut (dhcpConfig : SMap DhcpConfigKey) : Prop where
  disabled : IsSwitch (dhcpConfig .disabled)
  hopCountIncrementDisabled : IsSwitch (dhcpConfig .hopCountIncrementDisabled)
  option82Enabled : IsSwitch (dhcpConfig .option82Enabled)
  option82ValidationEnabled : IsSwitch (dhcpConfig .option82ValidationEnabled)
  option82Policy : ∃ policy, dhcpConfig .option82Policy = some (policyName policy)
  option82RemoteId : ∀ v, dhcpConfig .option82RemoteId = some v → ∃ rId, v = remoteIdName rId

/-- The two comparisons with `true` agree on the values of a switch. -/
theorem statusIsTrue_eq_abbreviates_iff (value : Option CString) :
    statusIsTrue value = abbreviates value "true".toList ↔ IsSwitch value := by
  rw [Bool.eq_iff_iff, abbreviates_iff]
  unfold statusIsTrue IsSwitch
  rw [decide_eq_true_eq]
  constructor
  · intro hiff v hv hprefix
    have htrue := hiff.mpr ⟨v, hv, hprefix⟩
    exact Option.some.inj (hv.symm.trans htrue)
  · intro hswitch
    constructor
    · intro htrue
      exact ⟨_, htrue, List.prefix_rfl⟩
    · rintro ⟨v, hv, hprefix⟩
      rw [hv, hswitch v hv hprefix]

theorem stateName_inj {state state' : Bool} :
    stateName state = stateName state' ↔ state = state' := by
  cases state <;> cases state' <;> decide

/-- The command shows a setting that a key switches off as the daemon has it exactly for
the values of a switch. -/
theorem shown_disabled_iff (value : Option CString) :
    (if statusIsTrue value then "disabled".toList else "enabled".toList) =
        stateName (!abbreviates value "true".toList) ↔
      IsSwitch value := by
  have hshown : (if statusIsTrue value then "disabled".toList else "enabled".toList) =
      stateName (!statusIsTrue value) := by
    cases statusIsTrue value <;> rfl
  rw [hshown, stateName_inj, Bool.not_inj_iff, statusIsTrue_eq_abbreviates_iff]

/-- The same for a setting that a key switches on. -/
theorem shown_enabled_iff (value : Option CString) :
    (if statusIsTrue value then "enabled".toList else "disabled".toList) =
        stateName (abbreviates value "true".toList) ↔
      IsSwitch value := by
  show stateName (statusIsTrue value) = _ ↔ _
  rw [stateName_inj, statusIsTrue_eq_abbreviates_iff]

/-- The policy shown is the one of the daemon exactly when it is configured and written
out. A missing one is shown as `replace` and read as `keep`. -/
theorem shown_policy_iff (value : Option CString) :
    value.getD (policyName .replace) =
        policyName (if abbreviates value "replace".toList then .replace
          else if abbreviates value "drop".toList then .drop else .keep) ↔
      ∃ policy, value = some (policyName policy) := by
  constructor
  · intro hshown
    cases value with
    | none => exact absurd hshown (by decide)
    | some v => exact ⟨_, congrArg some hshown⟩
  · rintro ⟨policy, rfl⟩
    cases policy <;> decide

/-- The same for the remote ID, where both readings take a missing one for `mac`. -/
theorem shown_remoteId_iff (value : Option CString) :
    value.getD (remoteIdName .mac) =
        remoteIdName (if abbreviates value "ip".toList then .ip else .mac) ↔
      ∀ v, value = some v → ∃ rId, v = remoteIdName rId := by
  constructor
  · intro hshown v hv
    subst hv
    exact ⟨_, hshown⟩
  · intro hnamed
    cases value with
    | none => rfl
    | some v =>
      obtain ⟨rId, rfl⟩ := hnamed v rfl
      cases rId <;> decide

/-- The command shows the settings of the daemon exactly for a column without
abbreviations. -/
theorem showDhcpRelayConfig_eq_iff (newline : CString) (cfg : FeatureConfig) (row : SystemRow) :
    showDhcpRelayConfig newline (some row) =
        some ((dhcpConfigUpdate cfg row.dhcpConfig).relaySettings.lines newline) ↔
      WrittenOut row.dhcpConfig := by
  unfold showDhcpRelayConfig RelaySettings.lines
  rw [dhcpConfigUpdate_relaySettings, Option.map_some]
  dsimp only
  rw [Option.some_inj, relayConfigLines_inj, shown_disabled_iff, shown_disabled_iff,
    shown_enabled_iff, shown_enabled_iff, shown_policy_iff, shown_remoteId_iff]
  constructor
  · rintro ⟨hrelay, hhop, hopt, hval, hpolicy, hid⟩
    exact ⟨hrelay, hhop, hopt, hval, hpolicy, hid⟩
  · intro h
    exact ⟨h.disabled, h.hopCountIncrementDisabled, h.option82Enabled,
      h.option82ValidationEnabled, h.option82Policy, h.option82RemoteId⟩

/-- After a change of `dhcp_config` has been processed, the daemon has the settings the
command shows, and for the empty column those it started with, exactly when the column is
written out: the policy is configured, and no value is a proper beginning of a word the
daemon knows or, for the policy and the remote ID, a word of its own. -/
theorem globalconfigUpdate_displayed_iff (newline : CString) (cb initial : GlobalConfig)
    (row : SystemRow) (hrow : row.rowModified = true) (hcol : row.dhcpConfigModified = true) :
    (showDhcpRelayConfig newline (some row) =
        some ((udpfwdProcessGlobalconfigUpdate cb (some row)).featureConfig.relaySettings.lines
          newline) ∧
      (row.dhcpConfig = SMap.empty →
        (udpfwdProcessGlobalconfigUpdate cb (some row)).featureConfig.relaySettings =
          (udpfwdSetDefaultConfig initial).featureConfig.relaySettings)) ↔
      WrittenOut row.dhcpConfig := by
  rw [udpfwdProcessGlobalconfigUpdate_relaySettings cb row hrow hcol, showDhcpRelayConfig_eq_iff]
  constructor
  · exact And.left
  · intro hwritten
    refine ⟨hwritten, ?_⟩
    intro hempty
    obtain ⟨policy, hpolicy⟩ := hwritten.option82Policy
    rw [hempty] at hpolicy
    exact absurd hpolicy (by simp [SMap.empty])

/-- A row whose `dhcp_config` column has changed. -/
def changedRow (dhcpConfig : SMap DhcpConfigKey) : SystemRow where
  rowModified := true
  dhcpConfigModified := true
  otherConfigModified := false
  dhcpConfig := dhcpConfig
  otherConfig := SMap.empty

/-- Option 82 is switched on, with the policy `drop`. -/
def dropPolicyConfig : SMap DhcpConfigKey
  | .option82Enabled => some "true".toList
  | .option82Policy => some "drop".toList
  | _ => none

/-- The control block after `udpfwd_set_default_config`. -/
def initialConfig : GlobalConfig :=
  udpfwdSetDefaultConfig
    { featureConfig := { config := 0, policy := .keep, rId := .ip }, statsInterval := 0 }

theorem globalconfigUpdate_displayed_iff_drop :
    showDhcpRelayConfig "\n".toList (some (changedRow dropPolicyConfig)) =
      some ((udpfwdProcessGlobalconfigUpdate initialConfig
        (some (changedRow dropPolicyConfig))).featureConfig.relaySettings.lines "\n".toList) := by
  have hwritten : WrittenOut dropPolicyConfig :=
    { disabled := fun v hv => nomatch hv
      hopCountIncrementDisabled := fun v hv => nomatch hv
      option82Enabled := fun v hv _ => (Option.some.inj hv).symm
      option82ValidationEnabled := fun v hv => nomatch hv
      option82Policy := ⟨.drop, rfl⟩
      option82RemoteId := fun v hv => nomatch hv }
  exact ((globalconfigUpdate_displayed_iff "\n".toList initialConfig initialConfig
    (changedRow dropPolicyConfig) rfl rfl).mpr hwritten).1

/-- The empty column: the daemon changes the policy to `keep`, where the command shows
`replace`, the policy the daemon started with. -/
theorem empty_config_not_displayed :
    showDhcpRelayConfig "\n".toList (some (changedRow SMap.empty)) ≠
        some ((udpfwdProcessGlobalconfigUpdate initialConfig
          (some (changedRow SMap.empty))).featureConfig.relaySettings.lines "\n".toList) ∧
      (udpfwdProcessGlobalconfigUpdate initialConfig
          (some (changedRow SMap.empty))).featureConfig.relaySettings ≠
        initialConfig.featureConfig.relaySettings := by
  decide

end Udpfwd
end IpApps
