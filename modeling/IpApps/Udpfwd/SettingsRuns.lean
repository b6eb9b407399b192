import IpApps.Udpfwd.RelayCommands

/-!
# The settings of the daemon over time

The relay commands write the `dhcp_config` column, and those of the forwarder `other_config`. The
daemon reads a column when it is told that it has changed. `settings_of_runs` says which settings
it has in every run of the commands and the daemon: those the commands show, but for a policy that
is not configured, which is `replace` for the commands and `keep` for the daemon.
-/

namespace IpApps
namespace Udpfwd

open Vty

namespace Vty

/-! ## The forwarder -/

/-- `udpfwd_globalconfig`, on the `other_config` column of the System row, if there is one. -/
def udpfwdGlobalconfig (txn : Txn) (status : CString) (ovsRow : Option (SMap OtherConfigKey)) :
    CmdResult × Option (SMap OtherConfigKey) :=
  if ¬ txn.created then (.ovsdbFailure, ovsRow)
  else
    match ovsRow with
    | none => (.ovsdbFailure, none)
    | some m =>
      if txn.committed then (.success, some (smapReplace m .udpBcastFwdEnabled status))
      else (.ovsdbFailure, some m)

/-- `cli_udp_bcast_fwd_enable`. -/
def cliUdpBcastFwdEnable (txn : Txn) (ovsRow : Option (SMap OtherConfigKey)) :
    CmdResult × Option (SMap OtherConfigKey) :=
  udpfwdGlobalconfig txn "true".toList ovsRow

/-- `cli_udp_bcast_fwd_disable`. -/
def cliUdpBcastFwdDisable (txn : Txn) (ovsRow : Option (SMap OtherConfigKey)) :
    CmdResult × Option (SMap OtherConfigKey) :=
  udpfwdGlobalconfig txn "false".toList ovsRow

/-! ## What the commands write -/

/-- The value of a switch, as the commands write it. -/
def SwitchValue (value : Option CString) : Prop :=
  ∀ v, value = some v → ∃ status : Bool, v = if status then "true".toList else "false".toList

/-- The values of a map, as the commands write them. -/
structure AsWritten (m : SMap DhcpConfigKey) : Prop where
  switch : ∀ feature key, featureKey feature = some key → SwitchValue (m key)
  policy : ∀ v, m .option82Policy = some v → ∃ policy, v = policyName policy
  remoteId : ∀ v, m .option82RemoteId = some v → ∃ rId, v = remoteIdName rId

section written

variable {m : SMap DhcpConfigKey}

theorem AsWritten.empty : AsWritten .empty where
  switch _ _ _ v hv := by cases hv
  policy v hv := by cases hv
  remoteId v hv := by cases hv

/-- Both readings of a switch agree. -/
theorem SwitchValue.abbreviates_eq {value : Option CString} (h : SwitchValue value) :
    abbreviates value "true".toList = statusIsTrue value := by
  refine ((statusIsTrue_eq_abbreviates_iff value).mpr fun v hv hprefix => ?_).symm
  obtain ⟨status, rfl⟩ := h v hv
  cases status with
  | false => exact absurd hprefix (by decide)
  | true => rfl

theorem AsWritten.updateFeatureKey (h : AsWritten m) (status : Bool) (feature : UdpfwdFeature) :
    AsWritten (updateFeatureKey status m feature) := by
  unfold Vty.updateFeatureKey
  cases hkey : featureKey feature with
  | none => exact h
  | some key =>
    -- the key of a feature is neither that of the policy nor that of the remote id
    have hother : key ≠ .option82Policy ∧ key ≠ .option82RemoteId := by
      cases feature <;> cases hkey <;> decide
    constructor
    · intro feature' key' hkey' v hv
      dsimp only at hv
      rw [smapReplace_apply] at hv
      by_cases hsame : key' = key
      · rw [if_pos hsame] at hv
        exact ⟨status, (Option.some.inj hv).symm⟩
      · rw [if_neg hsame] at hv
        exact h.switch feature' key' hkey' v hv
    · intro v hv
      dsimp only at hv
      rw [smapReplace_apply, if_neg hother.1.symm] at hv
      exact h.policy v hv
    · intro v hv
      dsimp only at hv
      rw [smapReplace_apply, if_neg hother.2.symm] at hv
      exact h.remoteId v hv

theorem AsWritten.updateOption82Policy (h : AsWritten m) (policy : Option82Policy) :
    AsWritten (updateOption82Policy policy m) := by
  unfold Vty.updateOption82Policy
  constructor
  · intro feature key hkey
    have hne : key ≠ .option82Policy := by
      cases feature <;> cases hkey <;> decide
    rw [smapReplace_apply, if_neg hne]
    exact h.switch feature key hkey
  · intro v hv
    rw [smapReplace_apply, if_pos rfl] at hv
    exact ⟨policy, (Option.some.inj hv).symm⟩
  · intro v hv
    rw [smapReplace_apply, if_neg (by decide)] at hv
    exact h.remoteId v hv

theorem AsWritten.updateOption82RemoteId (h : AsWritten m) (rid : RemoteId) :
    AsWritten (updateOption82RemoteId rid m) := by
  unfold Vty.updateOption82RemoteId
  constructor
  · intro feature key hkey
    have hne : key ≠ .option82RemoteId := by
      cases feature <;> cases hkey <;> decide
    rw [smapReplace_apply, if_neg hne]
    exact h.switch feature key hkey
  · intro v hv
    rw [smapReplace_apply, if_neg (by decide)] at hv
    exact h.policy v hv
  · intro v hv
    rw [smapReplace_apply, if_pos rfl] at hv
    exact ⟨rid, (Option.some.inj hv).symm⟩

/-- One step of `dhcp_relay_config`. -/
theorem AsWritten.feature (h : AsWritten m) (update status : Bool) (feature : UdpfwdFeature) :
    AsWritten (if update then Vty.updateFeatureKey status m feature else m) := by
  cases update with
  | false => exact h
  | true => exact h.updateFeatureKey status feature

theorem AsWritten.newDhcpConfig (h : AsWritten m) (updateConfig : UInt16)
    (configValue : ConfigValue) : AsWritten (newDhcpConfig updateConfig configValue m) := by
  -- the four features in the order of the source, then the policy and the remote id
  obtain ⟨config, policy, rId⟩ := configValue
  have hrelay := h.feature (getFeatureStatus updateConfig .dhcpRelay)
    (!getFeatureStatus config .dhcpRelay) .dhcpRelay
  have hhops := hrelay.feature (getFeatureStatus updateConfig .dhcpRelayHopCountIncrement)
    (!getFeatureStatus config .dhcpRelayHopCountIncrement) .dhcpRelayHopCountIncrement
  have hoption := hhops.feature (getFeatureStatus updateConfig .dhcpRelayOption82)
    (getFeatureStatus config .dhcpRelayOption82) .dhcpRelayOption82
  have hvalidate := hoption.feature (getFeatureStatus updateConfig .dhcpRelayOption82Validate)
    (getFeatureStatus config .dhcpRelayOption82Validate) .dhcpRelayOption82Validate
  cases policy with
  | none =>
    cases rId with
    | none => exact hvalidate
    | some rid => exact hvalidate.updateOption82RemoteId rid
  | some policy =>
    have hpolicy := hvalidate.updateOption82Policy policy
    cases rId with
    | none => exact hpolicy
    | some rid => exact hpolicy.updateOption82RemoteId rid

theorem asWritten_of_reachable {allowed : SMap DhcpConfigKey → Defun → Txn → Prop}
    (h : Reachable allowed m) : AsWritten m := by
  induction h with
  | empty => exact .empty
  | @exec m m' d argv0 txn result _ _ _ hexec ih =>
    unfold Defun.exec at hexec
    cases hstep : d.step (some m) argv0 with
    | ret result' =>
      rw [hstep] at hexec
      obtain rfl := Option.some.inj (Prod.mk.inj hexec).2
      exact ih
    | config updateFeatures configValue =>
      rw [hstep] at hexec
      -- only a transaction that commits writes the column
      simp only [dhcpRelayConfig] at hexec
      split at hexec
      · obtain rfl := Option.some.inj (Prod.mk.inj hexec).2
        exact ih
      · split at hexec
        · obtain rfl := Option.some.inj (Prod.mk.inj hexec).2
          exact ih.newDhcpConfig updateFeatures configValue
        · obtain rfl := Option.some.inj (Prod.mk.inj hexec).2
          exact ih

/-- The settings the commands show for a map, with this policy where none is configured. -/
def settingsOr (policy : Option82Policy) (m : SMap DhcpConfigKey) : Settings :=
  { settings m with policy := (m .option82Policy).getD (policyName policy) }

end written

end Vty

/-! ## What the daemon reads -/

/-- The settings of the daemon in the words of the commands. -/
def RelaySettings.named (s : RelaySettings) : Settings where
  dhcpRelay := s.dhcpRelay
  hopCountIncrement := s.hopCountIncrement
  option82 := s.option82
  option82Validate := s.option82Validate
  policy := policyName s.policy
  remoteId := remoteIdName s.rId

/-- The settings of a daemon that has been started. -/
def initialSettings : Settings :=
  ⟨true, true, false, false, policyName .replace, remoteIdName .mac⟩

theorem initialSettings_eq (cb : GlobalConfig) :
    (udpfwdSetDefaultConfig cb).featureConfig.relaySettings.named = initialSettings := by
  rw [udpfwdSetDefaultConfig_relaySettings]
  rfl

/-- The daemon reads what the commands show, but for a policy that is not configured. -/
theorem dhcpConfigUpdate_named {m : SMap DhcpConfigKey} (h : AsWritten m) (cfg : FeatureConfig) :
    (dhcpConfigUpdate cfg m).relaySettings.named = settingsOr .keep m := by
  rw [dhcpConfigUpdate_relaySettings]
  unfold RelaySettings.named settingsOr settings
  dsimp only
  rw [(h.switch .dhcpRelay .disabled rfl).abbreviates_eq,
    (h.switch .dhcpRelayHopCountIncrement .hopCountIncrementDisabled rfl).abbreviates_eq,
    (h.switch .dhcpRelayOption82 .option82Enabled rfl).abbreviates_eq,
    (h.switch .dhcpRelayOption82Validate .option82ValidationEnabled rfl).abbreviates_eq,
    ← (shown_remoteId_iff _).mpr h.remoteId]
  congr 1
  cases hpolicy : m .option82Policy with
  | none => decide
  | some v =>
    obtain ⟨policy, rfl⟩ := h.policy v hpolicy
    cases policy <;> decide

/-- The lines of the command. -/
theorem showDhcpRelayConfig_settings (newline : CString) (row : SystemRow) (s : RelaySettings) :
    showDhcpRelayConfig newline (some row) = some (s.lines newline) ↔
      settings row.dhcpConfig = s.named := by
  have hdisabled : ∀ value, (if statusIsTrue value then "disabled".toList else "enabled".toList)
      = stateName (!statusIsTrue value) := by
    intro value
    cases statusIsTrue value <;> rfl
  unfold showDhcpRelayConfig RelaySettings.lines
  rw [Option.map_some, Option.some_inj, relayConfigLines_inj, hdisabled, hdisabled, stateName_inj,
    stateName_inj]
  show _ ∧ _ ∧ stateName _ = _ ∧ stateName _ = _ ∧ _ ↔ _
  rw [stateName_inj, stateName_inj, Settings.ext_iff]
  rfl

/-! ## A call of the daemon -/

section update

variable (cb : GlobalConfig) (row : SystemRow)

/-- A change of `dhcp_config` leaves the forwarder alone. -/
theorem dhcpConfigUpdate_forwarder (cfg : FeatureConfig) (m : SMap DhcpConfigKey) :
    (dhcpConfigUpdate cfg m).enabled .udpBcastForwarder = cfg.enabled .udpBcastForwarder := by
  unfold dhcpConfigUpdate
  rw [updateOption82RemoteId_eq, updateOption82Policy_eq]
  have henabled (c : FeatureConfig) (p : Option82Policy) (r : RemoteId) (f : UdpfwdFeature) :
      FeatureConfig.enabled { c with policy := p, rId := r } f = c.enabled f := rfl
  simp only [henabled, updateFeatureState_enabled, reduceCtorEq, if_false]

theorem otherConfigUpdate_featureConfig (m : SMap OtherConfigKey) :
    (otherConfigUpdate cb m).featureConfig = updateFeatureState cb.featureConfig .udpBcastForwarder
      (abbreviates (m .udpBcastFwdEnabled) "true".toList) := by
  unfold otherConfigUpdate
  dsimp only
  cases m .statsUpdateInterval <;> rfl

theorem otherConfigUpdate_statsInterval {m : SMap OtherConfigKey} {v : CString}
    (h : m .statsUpdateInterval = some v) :
    (otherConfigUpdate cb m).statsInterval = Libc.atoi v := by
  unfold otherConfigUpdate updateStatsRefreshInterval
  dsimp only
  rw [h]
  dsimp only
  by_cases hsame : Libc.atoi v ≠ cb.statsInterval
  · rw [if_pos hsame]
  · rw [if_neg hsame, not_not.mp hsame]

/-- The IDL says that a column has changed. -/
def SystemRow.dhcpChanged : Bool := row.rowModified && row.dhcpConfigModified

def SystemRow.otherChanged : Bool := row.rowModified && row.otherConfigModified

/-- One change after the other. -/
theorem udpfwdProcessGlobalconfigUpdate_eq :
    udpfwdProcessGlobalconfigUpdate cb (some row) =
      let cb := if row.dhcpChanged then
        { cb with featureConfig := dhcpConfigUpdate cb.featureConfig row.dhcpConfig } else cb
      if row.otherChanged then otherConfigUpdate cb row.otherConfig else cb := by
  unfold udpfwdProcessGlobalconfigUpdate SystemRow.dhcpChanged SystemRow.otherChanged
  dsimp only
  cases row.rowModified with
  | false => rfl
  | true => rfl

theorem globalconfigUpdate_relaySettings :
    (udpfwdProcessGlobalconfigUpdate cb (some row)).featureConfig.relaySettings =
      if row.dhcpChanged then (dhcpConfigUpdate cb.featureConfig row.dhcpConfig).relaySettings
      else cb.featureConfig.relaySettings := by
  rw [udpfwdProcessGlobalconfigUpdate_eq]
  dsimp only
  cases row.otherChanged with
  | false => cases row.dhcpChanged <;> rfl
  | true =>
    rw [if_pos rfl, otherConfigUpdate_relaySettings]
    cases row.dhcpChanged <;> rfl

theorem globalconfigUpdate_forwarder :
    (udpfwdProcessGlobalconfigUpdate cb (some row)).featureConfig.enabled .udpBcastForwarder =
      if row.otherChanged then abbreviates (row.otherConfig .udpBcastFwdEnabled) "true".toList
      else cb.featureConfig.enabled .udpBcastForwarder := by
  rw [udpfwdProcessGlobalconfigUpdate_eq]
  dsimp only
  cases row.otherChanged with
  | true =>
    rw [if_pos rfl, if_pos rfl, otherConfigUpdate_featureConfig, updateFeatureState_enabled,
      if_pos rfl]
  | false =>
    cases row.dhcpChanged with
    | false => rfl
    | true => exact dhcpConfigUpdate_forwarder cb.featureConfig row.dhcpConfig

theorem globalconfigUpdate_statsInterval {v : CString} (hother : row.otherChanged = true)
    (hvalue : row.otherConfig .statsUpdateInterval = some v) :
    (udpfwdProcessGlobalconfigUpdate cb (some row)).statsInterval = Libc.atoi v := by
  rw [udpfwdProcessGlobalconfigUpdate_eq]
  dsimp only
  rw [if_pos hother]
  exact otherConfigUpdate_statsInterval _ hvalue

theorem globalconfigUpdate_kept (hother : row.otherChanged = false) :
    (udpfwdProcessGlobalconfigUpdate cb (some row)).statsInterval = cb.statsInterval := by
  rw [udpfwdProcessGlobalconfigUpdate_eq]
  dsimp only
  rw [if_neg (by simp [hother])]
  cases row.dhcpChanged <;> rfl

end update

/-! ## Runs -/

/-- The columns of the System row that the daemon reads. -/
structure SystemColumns where
  dhcpConfig : SMap DhcpConfigKey
  otherConfig : SMap OtherConfigKey

/-- The row has the columns, and the IDL reports at least what has changed since they were
`old`. -/
structure SystemRow.Reports (row : SystemRow) (old new : SystemColumns) : Prop where
  dhcpConfig : row.dhcpConfig = new.dhcpConfig
  otherConfig : row.otherConfig = new.otherConfig
  dhcpChanged : new.dhcpConfig ≠ old.dhcpConfig → row.dhcpChanged = true
  otherChanged : new.otherConfig ≠ old.otherConfig → row.otherChanged = true

/-- The columns and the daemon; the columns when it last looked, or was started, and whether a
change of each of them has been reported to it. -/
structure SettingsSystem where
  columns : SystemColumns
  cb : GlobalConfig
  polled : SystemColumns
  dhcpReported : Bool
  otherReported : Bool

namespace SettingsSystem

/-- The daemon is started; what is in the columns already may be reported or not. -/
def start (columns : SystemColumns) (cb : GlobalConfig) : SettingsSystem :=
  ⟨columns, udpfwdSetDefaultConfig cb, columns, false, false⟩

/-- The daemon looks at the row. -/
def look (s : SettingsSystem) (row : SystemRow) : SettingsSystem where
  columns := s.columns
  cb := udpfwdProcessGlobalconfigUpdate s.cb (some row)
  polled := s.columns
  dhcpReported := s.dhcpReported || row.dhcpChanged
  otherReported := s.otherReported || row.otherChanged

end SettingsSystem

/-- The systems that the relay commands that are `allowed`, the forwarder's, changes of the interval
and the daemon lead to from empty columns. -/
inductive SettingsRuns (allowed : SMap DhcpConfigKey → Defun → Txn → Prop) : SettingsSystem → Prop
  | start (cb : GlobalConfig) : SettingsRuns allowed (.start ⟨.empty, .empty⟩ cb)
  | restart {s : SettingsSystem} (h : SettingsRuns allowed s) (cb : GlobalConfig) :
      SettingsRuns allowed (.start s.columns cb)
  | dhcpRelay {s : SettingsSystem} (h : SettingsRuns allowed s) {d : Defun}
      {argv0 : Option CString} {txn : Txn} {result : CmdResult} {m : SMap DhcpConfigKey}
      (harg : argv0 ∈ d.args) (hallowed : allowed s.columns.dhcpConfig d txn)
      (hexec : d.exec argv0 txn (some s.columns.dhcpConfig) = (result, some m)) :
      SettingsRuns allowed { s with columns := { s.columns with dhcpConfig := m } }
  | udpBcastFwdEnable {s : SettingsSystem} (h : SettingsRuns allowed s) {txn : Txn}
      {result : CmdResult} {m : SMap OtherConfigKey}
      (hexec : cliUdpBcastFwdEnable txn (some s.columns.otherConfig) = (result, some m)) :
      SettingsRuns allowed { s with columns := { s.columns with otherConfig := m } }
  | udpBcastFwdDisable {s : SettingsSystem} (h : SettingsRuns allowed s) {txn : Txn}
      {result : CmdResult} {m : SMap OtherConfigKey}
      (hexec : cliUdpBcastFwdDisable txn (some s.columns.otherConfig) = (result, some m)) :
      SettingsRuns allowed { s with columns := { s.columns with otherConfig := m } }
  | interval {s : SettingsSystem} (h : SettingsRuns allowed s) (value : CString) :
      SettingsRuns allowed { s with columns := { s.columns with
        otherConfig := smapReplace s.columns.otherConfig .statsUpdateInterval value } }
  | look {s : SettingsSystem} (h : SettingsRuns allowed s) (row : SystemRow)
      (hreports : row.Reports s.polled s.columns) : SettingsRuns allowed (s.look row)

section runs

variable {allowed : SMap DhcpConfigKey → Defun → Txn → Prop} {s : SettingsSystem}

theorem SettingsRuns.reachable (h : SettingsRuns allowed s) :
    Reachable allowed s.columns.dhcpConfig ∧ Reachable allowed s.polled.dhcpConfig := by
  induction h with
  | start cb => exact ⟨.empty, .empty⟩
  | restart _ cb ih => exact ⟨ih.1, ih.1⟩
  | dhcpRelay _ harg hallowed hexec ih => exact ⟨ih.1.exec harg hallowed hexec, ih.2⟩
  | udpBcastFwdEnable _ _ ih => exact ih
  | udpBcastFwdDisable _ _ ih => exact ih
  | interval _ value ih => exact ih
  | look _ row hreports ih => exact ⟨ih.1, ih.1⟩

/-- The forwarder's switch after its commands. -/
theorem udpfwdGlobalconfig_switch {m m' : SMap OtherConfigKey} {txn : Txn} {status : Bool}
    {result : CmdResult} (h : SwitchValue (m .udpBcastFwdEnabled))
    (hexec : udpfwdGlobalconfig txn (if status then "true".toList else "false".toList) (some m)
      = (result, some m')) : SwitchValue (m' .udpBcastFwdEnabled) := by
  unfold udpfwdGlobalconfig at hexec
  split at hexec
  · obtain rfl := Option.some.inj (Prod.mk.inj hexec).2
    exact h
  · dsimp only at hexec
    split at hexec
    · obtain rfl := Option.some.inj (Prod.mk.inj hexec).2
      intro v hv
      rw [smapReplace_apply, if_pos rfl] at hv
      exact ⟨status, (Option.some.inj hv).symm⟩
    · obtain rfl := Option.some.inj (Prod.mk.inj hexec).2
      exact h

theorem SettingsRuns.switch (h : SettingsRuns allowed s) :
    SwitchValue (s.columns.otherConfig .udpBcastFwdEnabled) ∧
      SwitchValue (s.polled.otherConfig .udpBcastFwdEnabled) := by
  induction h with
  | start cb =>
    have hnone : SwitchValue none := fun v hv => by cases hv
    exact ⟨hnone, hnone⟩
  | restart _ cb ih => exact ⟨ih.1, ih.1⟩
  | dhcpRelay _ _ _ _ ih => exact ih
  | udpBcastFwdEnable _ hexec ih =>
    exact ⟨@udpfwdGlobalconfig_switch _ _ _ true _ ih.1 hexec, ih.2⟩
  | udpBcastFwdDisable _ hexec ih =>
    exact ⟨@udpfwdGlobalconfig_switch _ _ _ false _ ih.1 hexec, ih.2⟩
  | interval _ value ih =>
    refine ⟨?_, ih.2⟩
    dsimp only
    rw [smapReplace_apply, if_neg (by decide)]
    exact ih.1
  | look _ row hreports ih => exact ⟨ih.1, ih.1⟩

/-- The daemon has the settings that the columns had when it last looked, if they have been
reported, and the initial ones otherwise. -/
structure SettingsSystem.Inv (s : SettingsSystem) : Prop where
  relay : s.cb.featureConfig.relaySettings.named =
    if s.dhcpReported then settingsOr .keep s.polled.dhcpConfig else initialSettings
  forwarder : s.cb.featureConfig.enabled .udpBcastForwarder =
    (s.otherReported && statusIsTrue (s.polled.otherConfig .udpBcastFwdEnabled))
  interval : s.otherReported = true → ∀ v,
    s.polled.otherConfig .statsUpdateInterval = some v → s.cb.statsInterval = Libc.atoi v

theorem SettingsSystem.Inv.start (columns : SystemColumns) (cb : GlobalConfig) :
    (SettingsSystem.start columns cb).Inv where
  relay := initialSettings_eq cb
  forwarder := by
    simp [SettingsSystem.start, udpfwdSetDefaultConfig, FeatureConfig.enabled,
      getFeatureStatus_setFeatureStatus]
  interval hreported := by cases hreported

theorem SettingsSystem.Inv.look (h : s.Inv) (htyped : AsWritten s.columns.dhcpConfig)
    (hswitch : SwitchValue (s.columns.otherConfig .udpBcastFwdEnabled)) {row : SystemRow}
    (hreports : row.Reports s.polled s.columns) : (s.look row).Inv where
  relay := by
    unfold SettingsSystem.look
    dsimp only
    rw [globalconfigUpdate_relaySettings]
    cases hchanged : row.dhcpChanged with
    | true =>
      rw [if_pos rfl, Bool.or_true, if_pos rfl, hreports.dhcpConfig]
      exact dhcpConfigUpdate_named htyped s.cb.featureConfig
    | false =>
      -- a column that is not reported is as it was at the last look
      have hsame : s.columns.dhcpConfig = s.polled.dhcpConfig := by
        by_contra hne
        rw [hreports.dhcpChanged hne] at hchanged
        cases hchanged
      rw [if_neg Bool.false_ne_true, Bool.or_false, hsame]
      exact h.relay
  forwarder := by
    unfold SettingsSystem.look
    dsimp only
    rw [globalconfigUpdate_forwarder]
    cases hchanged : row.otherChanged with
    | true =>
      rw [if_pos rfl, Bool.or_true, Bool.true_and, hreports.otherConfig]
      exact hswitch.abbreviates_eq
    | false =>
      have hsame : s.columns.otherConfig = s.polled.otherConfig := by
        by_contra hne
        rw [hreports.otherChanged hne] at hchanged
        cases hchanged
      rw [if_neg Bool.false_ne_true, Bool.or_false, hsame]
      exact h.forwarder
  interval := by
    unfold SettingsSystem.look
    intro hreported v hv
    dsimp only at hreported hv ⊢
    cases hchanged : row.otherChanged with
    | true =>
      rw [← hreports.otherConfig] at hv
      exact globalconfigUpdate_statsInterval s.cb row hchanged hv
    | false =>
      have hsame : s.columns.otherConfig = s.polled.otherConfig := by
        by_contra hne
        rw [hreports.otherChanged hne] at hchanged
        cases hchanged
      rw [hchanged, Bool.or_false] at hreported
      rw [hsame] at hv
      rw [globalconfigUpdate_kept s.cb row hchanged]
      exact h.interval hreported v hv

theorem SettingsRuns.inv (h : SettingsRuns allowed s) : s.Inv := by
  induction h with
  | start cb => exact .start _ cb
  | restart _ cb ih => exact .start _ cb
  | dhcpRelay _ _ _ _ ih => exact ⟨ih.relay, ih.forwarder, ih.interval⟩
  | udpBcastFwdEnable _ _ ih => exact ⟨ih.relay, ih.forwarder, ih.interval⟩
  | udpBcastFwdDisable _ _ ih => exact ⟨ih.relay, ih.forwarder, ih.interval⟩
  | interval _ value ih => exact ⟨ih.relay, ih.forwarder, ih.interval⟩
  | look h row hreports ih =>
    exact ih.look (asWritten_of_reachable h.reachable.1) h.switch.1 hreports

/-- In every run, the daemon has the settings that the columns had when it last looked, with
`keep` for a policy that is not configured, if a change has been reported since it was started, and
the initial ones otherwise. The command shows these settings unless they were reported without a
policy, or were never reported and are not the initial ones. -/
theorem settings_of_runs (h : SettingsRuns allowed s) (newline : CString) {row : SystemRow}
    (hrow : row.dhcpConfig = s.polled.dhcpConfig) :
    s.Inv ∧ (showDhcpRelayConfig newline (some row) =
        some (s.cb.featureConfig.relaySettings.lines newline) ↔
      if s.dhcpReported then s.polled.dhcpConfig .option82Policy ≠ none
      else settings s.polled.dhcpConfig = initialSettings) := by
  refine ⟨h.inv, ?_⟩
  rw [showDhcpRelayConfig_settings, hrow, h.inv.relay]
  cases s.dhcpReported with
  | false => exact Iff.rfl
  | true =>
    rw [if_pos rfl, if_pos rfl]
    unfold settingsOr
    rw [Settings.ext_iff]
    -- the two differ in the policy at most, where the daemon keeps and the display shows nothing
    simp only [true_and, and_true]
    show (s.polled.dhcpConfig .option82Policy).getD _ = _ ↔ _
    cases s.polled.dhcpConfig .option82Policy with
    | none => decide
    | some v => exact iff_of_true rfl (Option.some_ne_none v)

/-- `dhcp-relay option 82 validate` is typed, and the daemon looks. -/
def validatedSystem : SettingsSystem :=
  (SettingsSystem.mk ⟨validatedConfig, .empty⟩ initialConfig ⟨.empty, .empty⟩ false false).look
    (changedRow validatedConfig)

theorem validatedSystem_runs (hallowed : ∀ m, allowed m .options committedTxn) :
    SettingsRuns allowed validatedSystem := by
  have hstart : SettingsRuns allowed ⟨⟨.empty, .empty⟩, initialConfig, ⟨.empty, .empty⟩, false,
      false⟩ := .start _
  have htyped := @SettingsRuns.dhcpRelay _ _ hstart .options (some "validate".toList) committedTxn
    .success validatedConfig (by decide) (hallowed _) rfl
  exact .look htyped (changedRow validatedConfig)
    ⟨rfl, rfl, fun _ => rfl, fun hne => absurd rfl hne⟩

/-- No policy is configured: the daemon keeps, and the command shows `replace`. -/
theorem settings_of_runs_validate :
    validatedSystem.cb.featureConfig.relaySettings.named =
        ⟨true, true, true, true, policyName .keep, remoteIdName .mac⟩ ∧
      showDhcpRelayConfig "\n".toList (some (changedRow validatedConfig)) ≠
        some (validatedSystem.cb.featureConfig.relaySettings.lines "\n".toList) := by
  have hruns := @validatedSystem_runs AnyStep fun _ => trivial
  obtain ⟨hinv, hshown⟩ := @settings_of_runs AnyStep validatedSystem hruns "\n".toList
    (changedRow validatedConfig) rfl
  refine ⟨hinv.relay.trans (by decide), fun heq => ?_⟩
  exact absurd (hshown.mp heq) (by decide)

/-- If the relay is enabled whenever `dhcp-relay option 82 drop (validate|mac|ip)` is carried out,
the daemon never validates without option 82 and never has option 82 without the relay, and it
keeps and validates only for want of a policy. -/
theorem coherent_of_runs (h : SettingsRuns DropNeedsRelay s) :
    let settings := s.cb.featureConfig.relaySettings
    (settings.option82Validate = true → settings.option82 = true) ∧
      (settings.option82 = true → settings.dhcpRelay = true) ∧
      (settings.policy = .keep → settings.option82Validate = true →
        s.dhcpReported = true ∧ s.polled.dhcpConfig .option82Policy = none) := by
  have hcoherent := coherent_of_reachable h.reachable.2
  have hnamed := h.inv.relay
  have hvalidate := congrArg Settings.option82Validate hnamed
  have hoption := congrArg Settings.option82 hnamed
  have hrelay := congrArg Settings.dhcpRelay hnamed
  have hpolicy := congrArg Settings.policy hnamed
  unfold RelaySettings.named at hvalidate hoption hrelay hpolicy
  dsimp only at hvalidate hoption hrelay hpolicy ⊢
  cases hreported : s.dhcpReported with
  | false =>
    -- none of the features is enabled but the relay
    rw [hreported, if_neg Bool.false_ne_true] at hvalidate hoption
    rw [hvalidate, hoption]
    have hoff : initialSettings.option82 = false ∧ initialSettings.option82Validate = false :=
      ⟨rfl, rfl⟩
    simp only [hoff.1, hoff.2, Bool.false_eq_true, false_imp_iff, imp_true_iff, and_true]
  | true =>
    rw [hreported, if_pos rfl] at hvalidate hoption hrelay hpolicy
    rw [hvalidate, hoption, hrelay]
    refine ⟨hcoherent.option82, hcoherent.dhcpRelay, fun hkeep hvalidates => ⟨rfl, ?_⟩⟩
    by_contra hne
    obtain ⟨v, hv⟩ := Option.ne_none_iff_exists'.mp hne
    have hshown : (settings s.polled.dhcpConfig).policy = policyName .keep := by
      show (s.polled.dhcpConfig .option82Policy).getD _ = _
      rw [hkeep] at hpolicy
      rw [hpolicy]
      show _ = (s.polled.dhcpConfig .option82Policy).getD _
      rw [hv]
      rfl
    have hoff := hcoherent.keep hshown
    have hon : (settings s.polled.dhcpConfig).option82Validate = true := hvalidates
    rw [hoff] at hon
    cases hon

/-- The daemon keeps and validates. -/
theorem coherent_of_runs_validate :
    validatedSystem.cb.featureConfig.relaySettings.dhcpRelay = true ∧
      validatedSystem.polled.dhcpConfig .option82Policy = none := by
  have hruns : SettingsRuns DropNeedsRelay validatedSystem := by
    refine validatedSystem_runs fun m hdrop => ?_
    cases hdrop
  obtain ⟨hoption, hrelay, hkeep⟩ := coherent_of_runs hruns
  refine ⟨hrelay (hoption (by decide)), (hkeep (by decide) (by decide)).2⟩

end runs

end Udpfwd
end IpApps
