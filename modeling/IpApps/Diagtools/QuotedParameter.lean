import IpApps.Diagtools.Ping
import IpApps.Diagtools.Traceroute

/-!
# What the user can put into a diagnostic command

The checks leave a hostname that is an arbitrary word, and a data-fill without a bound, and they
write an IPv6 address into an object that is too short for it. `oneCommand_of_accepted_iff` says
what this comes to: the command line is the call of `nwdiag` with its three words if and only if the
checks have a meaning, the target can stand between double quotes and the line fits, which only a
data-fill can prevent.
-/

namespace IpApps
namespace Diagtools

open ShellWords Snprintf

/-- The one entry that a check leads to has a property. -/
theorem exists_and_iff_forall {α : Type} {outcome : Except Undefined (Option α)} {P Q : α → Prop}
    (h : ∀ p, outcome = .ok (some p) → (P p ↔ Q p)) :
    (∃ p, outcome = .ok (some p) ∧ P p)
      ↔ (∃ p, outcome = .ok (some p)) ∧ ∀ p, outcome = .ok (some p) → Q p := by
  constructor
  · rintro ⟨p, hp, hP⟩
    refine ⟨⟨p, hp⟩, fun q hq => ?_⟩
    cases hp.symm.trans hq
    exact (h p hp).mp hP
  · rintro ⟨⟨p, hp⟩, hQ⟩
    exact ⟨p, hp, (h p hp).mpr (hQ p hp)⟩

/-- The command lines of `ping` and `traceroute`, for all arguments that are not refused: the line
is the call of `nwdiag` if and only if the check of each argument has a meaning, the target stays
quoted and the line fits. -/
theorem oneCommand_of_accepted_iff (sh : Shell) (sw : Switch) (newline : CString)
    (hsw : sw.NamesNamespaces) :
    (∀ arguments, decodeAll (decodeParam sw newline) arguments .zero ≠ .ok none →
      ((∃ p, decodeAll (decodeParam sw newline) arguments .zero = .ok (some p) ∧
          RunsOneCommand sh [exePath, namespaceOf p.mgmt p.vrfN, p.tool] (pingMain true (some p)))
        ↔ (∀ argument ∈ arguments, argument.1.Defined argument.2) ∧
          ∀ p, decodeAll (decodeParam sw newline) arguments .zero = .ok (some p) →
            StaysQuoted sh (p.pingTarget.getD []) ∧ p.lineLength < bufsiz)) ∧
    ∀ arguments, decodeAll (decodeTracerouteParam sw newline) arguments .zero ≠ .ok none →
      ((∃ p, decodeAll (decodeTracerouteParam sw newline) arguments .zero = .ok (some p) ∧
          RunsOneCommand sh [exePath, namespaceOf p.mgmt p.vrfN, p.tool]
            (tracerouteHandler true (some p)))
        ↔ (∀ argument ∈ arguments, argument.1.Defined argument.2) ∧
          ∀ p, decodeAll (decodeTracerouteParam sw newline) arguments .zero = .ok (some p) →
            StaysQuoted sh (p.tracerouteTarget.getD [])) := by
  constructor
  · intro arguments hnone
    rw [← decodeAll_ok_iff decodeParam_ok_iff hnone]
    refine exists_and_iff_forall fun p hp => ?_
    have hchecked : p.Checked := PingEntry.checked_of_decodeAll hsw hp
    exact hchecked.runsOneCommand_iff
  · intro arguments hnone
    rw [← decodeAll_ok_iff decodeTracerouteParam_ok_iff hnone]
    refine exists_and_iff_forall fun p hp => ?_
    have hchecked : p.Checked := TracerouteEntry.checked_of_decodeAll hsw hp
    exact hchecked.runsOneCommand_iff

/-! ## Runs -/

/-- A switch with one VRF. -/
def labSwitch : Switch where
  getVrfNsFromName name :=
    if name = "red".toList then some "6ba7b810-9dad-11d1-80b4-00c04fd430c8".toList else none
  isBroadcastIpv4 host := host = 0xffffffff
  isSubnetBroadcast host := host % 256 = 255

theorem labSwitch_namesNamespaces : labSwitch.NamesNamespaces := by
  intro name ns h
  rw [labSwitch, Option.ite_none_right_eq_some] at h
  rw [← Option.some.inj h.2, IsNamespace]
  decide

/-- The entry of `ping 10.0.0.1 data-fill ab vrf red`. -/
def labPing : PingEntry :=
  { PingEntry.zero with
    isIpv4 := true
    pingTarget := some "10.0.0.1".toList
    pingDataFill := some "ab".toList
    vrfN := "6ba7b810-9dad-11d1-80b4-00c04fd430c8".toList }

/-- The entry of `traceroute6 host-1 mgmt`. -/
def labTraceroute : TracerouteEntry :=
  { TracerouteEntry.zero with tracerouteTarget := some "host-1".toList, mgmt := true }

theorem oneCommand_of_accepted_iff_lab :
    RunsOneCommand .names
        [exePath, "6ba7b810-9dad-11d1-80b4-00c04fd430c8".toList, "ping".toList]
        (pingMain true (some labPing)) ∧
      RunsOneCommand .names [exePath, "mgmt".toList, "traceroute6".toList]
        (tracerouteHandler true (some labTraceroute)) := by
  obtain ⟨hping, htraceroute⟩ :=
    oneCommand_of_accepted_iff .names labSwitch "\n".toList labSwitch_namesNamespaces
  have hlabPing : decodeAll (decodeParam labSwitch "\n".toList)
      [(.ipv4Destination, some "10.0.0.1".toList), (.dataFill, some "ab".toList),
        (.vrfName, some "red".toList)] .zero = .ok (some labPing) := by decide +kernel
  have hlabTraceroute : decodeAll (decodeTracerouteParam labSwitch "\n".toList)
      [(.ipv6Destination, some "host-1".toList), (.tracerouteMgmt, some "1".toList)] .zero
        = .ok (some labTraceroute) := by decide +kernel
  constructor
  · obtain ⟨p, hp, hrun⟩ := (hping _ (by rw [hlabPing]; intro h; cases h)).mpr
      ⟨by simp [PingArguments.Defined]; decide, fun p hp => by
        cases hlabPing.symm.trans hp; decide +kernel⟩
    cases hlabPing.symm.trans hp
    exact hrun
  · obtain ⟨p, hp, hrun⟩ := (htraceroute _ (by rw [hlabTraceroute]; intro h; cases h)).mpr
      ⟨by simp [TracerouteArguments.Defined, Ipv6DestinationDefined]; decide, fun p hp => by
        cases hlabTraceroute.symm.trans hp; decide +kernel⟩
    cases hlabTraceroute.symm.trans hp
    exact hrun

/-- The entry of `ping` with a target and a data-fill. -/
def targetPing (target : CString) (dataFill : Option CString) : PingEntry :=
  { PingEntry.zero with isIpv4 := true, pingTarget := some target, pingDataFill := dataFill }

/-- Every data-fill of hexadecimal digits is accepted. -/
theorem decodeAll_dataFill {dataFill : CString} (hlength : dataFill.length ≤ intMax)
    (hhex : dataFill.all isXdigit = true) :
    decodeAll (decodeParam labSwitch "\n".toList)
      [(.ipv4Destination, some "10.0.0.1".toList), (.dataFill, some dataFill)] .zero
        = .ok (some (targetPing "10.0.0.1".toList (some dataFill))) := by
  have hfirst : decodeParam labSwitch "\n".toList (some "10.0.0.1".toList) .ipv4Destination .zero
      = .ok (.accept (targetPing "10.0.0.1".toList none)) := by decide +kernel
  have ⟨out, hfill⟩ := PingEntry.decodeDataFill_of_hex "\n".toList hlength hhex
    (targetPing "10.0.0.1".toList none)
  have hsecond : decodeParam labSwitch "\n".toList (some dataFill) .dataFill
      (targetPing "10.0.0.1".toList none)
        = .ok ⟨.success, targetPing "10.0.0.1".toList (some dataFill), out⟩ := hfill
  exact (decodeAll_cons hfirst rfl _).trans (decodeAll_cons hsecond rfl [])

/-- An IPv6 address that is written over the end of `addr6`, a hostname that ends the parameter, and
a data-fill that does not fit. -/
theorem accepted_breaks_command :
    (decodeAll (decodeParam labSwitch "\n".toList) [(.ipv6Destination, some "::1".toList)] .zero
        = .error .outOfBounds ∧
      decodeAll (decodeTracerouteParam labSwitch "\n".toList)
        [(.ipv6Destination, some "::1".toList)] .zero = .error .outOfBounds) ∧
    (decodeAll (decodeParam labSwitch "\n".toList)
        [(.ipv4Destination, some "a\";reboot;\"".toList)] .zero
        = .ok (some (targetPing "a\";reboot;\"".toList none)) ∧
      ¬RunsOneCommand .names [exePath, "swns".toList, "ping".toList]
        (pingMain true (some (targetPing "a\";reboot;\"".toList none)))) ∧
    decodeAll (decodeParam labSwitch "\n".toList)
        [(.ipv4Destination, some "10.0.0.1".toList),
          (.dataFill, some (List.replicate bufsiz 'a'))] .zero
        = .ok (some (targetPing "10.0.0.1".toList (some (List.replicate bufsiz 'a')))) ∧
      ¬RunsOneCommand .names [exePath, "swns".toList, "ping".toList]
        (pingMain true
          (some (targetPing "10.0.0.1".toList (some (List.replicate bufsiz 'a'))))) := by
  have hhex : (List.replicate bufsiz 'a').all isXdigit = true := by
    rw [List.all_replicate]
    decide
  have hlength : (List.replicate bufsiz 'a').length = bufsiz := List.length_replicate
  generalize List.replicate bufsiz 'a' = dataFill at hhex hlength ⊢
  have hreboot : decodeAll (decodeParam labSwitch "\n".toList)
      [(.ipv4Destination, some "a\";reboot;\"".toList)] .zero
        = .ok (some (targetPing "a\";reboot;\"".toList none)) := by decide +kernel
  have hlong := decodeAll_dataFill (hlength ▸ by decide) hhex
  refine ⟨by decide +kernel, ⟨hreboot, fun h => ?_⟩, hlong, fun h => ?_⟩
  · have hchecked := PingEntry.checked_of_decodeAll labSwitch_namesNamespaces hreboot
    refine absurd (hchecked.runsOneCommand_iff.mp h) ?_
    decide +kernel
  · have hchecked := PingEntry.checked_of_decodeAll labSwitch_namesNamespaces hlong
    have hfits := (hchecked.runsOneCommand_iff.mp h).2
    have hfill : dataFill.length ≤ (targetPing "10.0.0.1".toList (some dataFill)).lineLength :=
      hchecked.lineLength_bounds.1
    omega

end Diagtools
end IpApps
