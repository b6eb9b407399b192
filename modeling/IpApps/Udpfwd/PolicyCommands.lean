import IpApps.Udpfwd.RunningConfig

/-!
# What the option 82 commands store

A command that names a policy stores it, with the remote ID and the validation that its words
name. `dhcp-relay option 82 validate replace` is the one that stores another policy: it was
copied from the command for `drop`.
-/

namespace IpApps
namespace Udpfwd
namespace Vty

/-! ## What the words name -/

/-- The words of a line. -/
def lineWords (line : CString) : List CString := line.splitOn ' '

/-- The policy a line names. -/
def namedPolicy (line : CString) : Option Option82Policy :=
  [.keep, .drop, .replace].find? fun policy => policyName policy ∈ lineWords line

/-- The remote ID a line names. -/
def namedRemoteId (line : CString) : Option RemoteId :=
  [.ip, .mac].find? fun rid => remoteIdName rid ∈ lineWords line

/-- Whether a line names validation. -/
def namesValidate (line : CString) : Bool := "validate".toList ∈ lineWords line

/-- The validation that goes with the words: `keep` turns it off. -/
def namedValidation (line : CString) (policy : Option82Policy) : Option Bool :=
  if namesValidate line then some true else if policy = .keep then some false else none

/-- A command that names a policy. -/
structure PolicyCommand where
  defun : Defun
  argv0 : Option CString
  isCommand : (defun, argv0) ∈ commands
  policy : Option82Policy
  namedPolicy_eq : namedPolicy (commandLine defun argv0) = some policy

/-- The line of the command. -/
def PolicyCommand.line (command : PolicyCommand) : CString :=
  commandLine command.defun command.argv0

/-! ## What a change writes -/

/-- The status of a feature, as its key has it. -/
def statusName (status : Bool) : CString := if status then "true".toList else "false".toList

/-- The value that a change writes for a key. -/
def Change.written (c : Change) : SMap DhcpConfigKey
  | .disabled => c.dhcpRelay.map fun status => statusName (!status)
  | .hopCountIncrementDisabled => c.hopCountIncrement.map fun status => statusName (!status)
  | .option82Enabled => c.option82.map statusName
  | .option82ValidationEnabled => c.option82Validate.map statusName
  | .option82Policy => c.policy.map policyName
  | .option82RemoteId => c.rId.map remoteIdName
  | .other _ => none

/-- A status is written where it is updated. -/
theorem statusName_written (update status : Bool) (f : Bool → CString) (old : Option CString) :
    (if update then some (f status) else old)
      = ((if update then some status else none).map f).or old := by
  cases update <;> rfl

/-- `dhcp_relay_config` writes what its bit maps and enumerations say, and keeps the rest. -/
theorem newDhcpConfig_apply (updateConfig : UInt16) (configValue : ConfigValue)
    (m : SMap DhcpConfigKey) (key : DhcpConfigKey) :
    newDhcpConfig updateConfig configValue m key
      = ((changeOf updateConfig configValue).written key).or (m key) := by
  unfold newDhcpConfig changeOf
  simp only [rId_apply, policy_apply, feature_apply, featureKey]
  cases key with
  | disabled =>
    simp only [reduceCtorEq, Option.some.injEq, and_true, and_false, if_false]
    exact statusName_written _ _ (fun status => statusName (!status)) _
  | hopCountIncrementDisabled =>
    simp only [reduceCtorEq, Option.some.injEq, and_true, and_false, if_false]
    exact statusName_written _ _ (fun status => statusName (!status)) _
  | option82Enabled =>
    simp only [reduceCtorEq, Option.some.injEq, and_true, and_false, if_false]
    exact statusName_written _ _ statusName _
  | option82ValidationEnabled =>
    simp only [reduceCtorEq, Option.some.injEq, and_true, and_false, if_false]
    exact statusName_written _ _ statusName _
  | option82Policy => simp [Change.written]
  | option82RemoteId => simp [Change.written]
  | other => simp [Change.written]

/-! ## Each form -/

/-- A change is what the words of a line name. -/
def Change.Named (line : CString) (policy : Option82Policy) (c : Change) : Prop :=
  c.policy = some policy ∧ c.rId = namedRemoteId line ∧
    c.option82Validate = namedValidation line policy ∧ c.hopCountIncrement = none

instance (line : CString) (policy : Option82Policy) (c : Change) :
    Decidable (c.Named line policy) :=
  inferInstanceAs (Decidable (_ ∧ _))

/-- Each command but one changes what its words name, whether the policy was `keep` or not. -/
theorem change_named : ∀ keeps : Bool, ∀ command ∈ commands,
    ∀ policy ∈ namedPolicy (commandLine command.1 command.2),
      command.1 ≠ .validateReplaceOption →
      ∃ c ∈ (command.1.step (some (keeping keeps)) command.2).change,
        c.Named (commandLine command.1 command.2) policy := by
  decide +kernel

/-- `dhcp-relay option 82 validate replace` changes the policy to `drop`. -/
theorem change_validateReplace : ∀ keeps : Bool, ∀ command ∈ commands,
    command.1 = .validateReplaceOption →
      namedPolicy (commandLine command.1 command.2) = some .replace ∧
        ∃ c ∈ (command.1.step (some (keeping keeps)) command.2).change, c.policy = some .drop := by
  decide +kernel

/-- The keys for the relay, option 82, validation, the policy and the remote ID. -/
def option82Keys : List DhcpConfigKey :=
  [.disabled, .option82Enabled, .option82ValidationEnabled, .option82Policy, .option82RemoteId]

/-- The map that is stored has what the words of a line name. -/
structure StoresNamed (line : CString) (policy : Option82Policy) (m m' : SMap DhcpConfigKey) :
    Prop where
  policy_eq : m' .option82Policy = some (policyName policy)
  remoteId_eq : m' .option82RemoteId
    = ((namedRemoteId line).map remoteIdName).or (m .option82RemoteId)
  validate : namesValidate line → m' .option82ValidationEnabled = some "true".toList
  keep : ¬namesValidate line → policy = .keep →
    m' .option82ValidationEnabled = some "false".toList
  unvalidated : ¬namesValidate line → policy ≠ .keep →
    m' .option82ValidationEnabled = m .option82ValidationEnabled
  other : ∀ key ∉ option82Keys, m' key = m key

/-- A change by the words stores what they name. -/
theorem Change.Named.stores {line : CString} {policy : Option82Policy} {c : Change}
    (h : c.Named line policy) {m m' : SMap DhcpConfigKey}
    (hm' : ∀ key, m' key = (c.written key).or (m key)) : StoresNamed line policy m m' := by
  have ⟨hpolicy, hrId, hvalidate, hhopCount⟩ := h
  have hvalidation : m' .option82ValidationEnabled
      = ((namedValidation line policy).map statusName).or (m .option82ValidationEnabled) := by
    rw [hm', Change.written, hvalidate]
  unfold namedValidation at hvalidation
  constructor
  · rw [hm', Change.written, hpolicy]
    rfl
  · rw [hm', Change.written, hrId]
  · intro hnamed
    rw [hvalidation, if_pos hnamed]
    rfl
  · intro hnamed hkeep
    rw [hvalidation, if_neg hnamed, if_pos hkeep]
    rfl
  · intro hnamed hkeep
    rw [hvalidation, if_neg hnamed, if_neg hkeep]
    rfl
  · intro key hkey
    rw [hm']
    cases key with
    | hopCountIncrementDisabled =>
      rw [Change.written, hhopCount]
      rfl
    | other key => rfl
    | _ => exact absurd hkey (by decide)

/-- A command that changes something writes the change to the map. -/
theorem exec_of_change {d : Defun} {argv0 : Option CString} {m : SMap DhcpConfigKey} {c : Change}
    (h : (d.step (some m) argv0).change = some c) :
    ∃ m', d.exec argv0 committedTxn (some m) = (.success, some m') ∧
      ∀ key, m' key = (c.written key).or (m key) := by
  unfold Defun.exec
  cases hstep : d.step (some m) argv0 with
  | ret result =>
    rw [hstep] at h
    exact absurd h nofun
  | config updateFeatures configValue =>
    rw [hstep] at h
    refine ⟨newDhcpConfig updateFeatures configValue m, rfl, fun key => ?_⟩
    rw [newDhcpConfig_apply, ← Option.some.inj h]

/-- The option 82 commands that name a policy store what they say, whatever the map was, except
for `dhcp-relay option 82 validate replace`. -/
theorem storesNamed_iff (command : PolicyCommand) (m : SMap DhcpConfigKey) :
    (∃ m', command.defun.exec command.argv0 committedTxn (some m) = (.success, some m') ∧
        StoresNamed command.line command.policy m m') ↔
      command.defun ≠ .validateReplaceOption := by
  have hstep := step_keeping command.defun m command.argv0
  constructor
  · rintro ⟨m', hexec, hstores⟩ heq
    have ⟨hreplace, c, hc, hdrop⟩ := change_validateReplace
      ((settings m).policy = policyName .keep) _ command.isCommand heq
    have ⟨m'', hexec', hwritten⟩ := exec_of_change ((congrArg DefunStep.change hstep).trans hc)
    rw [hexec] at hexec'
    have hpolicy := hstores.policy_eq
    rw [Option.some.inj (Prod.mk.inj hexec').2, hwritten, Change.written, hdrop] at hpolicy
    have hnamed := command.namedPolicy_eq
    rw [hreplace] at hnamed
    rw [← Option.some.inj hnamed, Option.map_some, Option.some_or] at hpolicy
    exact absurd hpolicy (by decide)
  · intro hne
    have ⟨c, hc, hnamed⟩ := change_named ((settings m).policy = policyName .keep) _
      command.isCommand _ command.namedPolicy_eq hne
    have ⟨m', hexec, hwritten⟩ := exec_of_change ((congrArg DefunStep.change hstep).trans hc)
    exact ⟨m', hexec, hnamed.stores hwritten⟩

/-- `dhcp-relay option 82 validate replace mac`. -/
def validateReplaceMac : PolicyCommand where
  defun := .validateReplaceOption
  argv0 := some "mac".toList
  isCommand := by decide
  policy := .replace
  namedPolicy_eq := by decide

/-- The policy that is stored is `drop`. -/
theorem validateReplace_stores_drop :
    ¬∀ (command : PolicyCommand) (m : SMap DhcpConfigKey), ∃ m',
      command.defun.exec command.argv0 committedTxn (some m) = (.success, some m') ∧
        StoresNamed command.line command.policy m m' := by
  intro h
  have ⟨m', hexec, hstores⟩ := h validateReplaceMac .empty
  have hpolicy := hstores.policy_eq
  rw [← Option.some.inj (Prod.mk.inj hexec).2] at hpolicy
  exact absurd hpolicy (by decide)

end Vty
end Udpfwd
end IpApps
