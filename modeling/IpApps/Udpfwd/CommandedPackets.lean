import IpApps.Udpfwd.PacketRuns
import IpApps.Udpfwd.SettingsRuns

/-!
# Settings, servers and packets

A packet is processed with the settings the daemon has and the servers it has. Both follow the
commands, each in runs of its own, so that whatever is typed and in whatever order it is seen, what
the daemon sends is what the commands that it has seen allow.
-/

namespace IpApps
namespace Udpfwd

open Memory Endian Vty

/-! ## The switches -/

namespace SettingsSystem

variable (c : SettingsSystem)

/-- Neither has the counting of hops. -/
def CountsHops : Prop :=
  c.dhcpReported = true → statusIsTrue (c.polled.dhcpConfig .hopCountIncrementDisabled) = false

/-- Option 82 has been enabled. -/
def Option82On : Prop :=
  c.dhcpReported = true ∧ statusIsTrue (c.polled.dhcpConfig .option82Enabled) = true

instance : Decidable c.CountsHops := inferInstanceAs (Decidable (_ → _))

end SettingsSystem

section switches

variable {c : SettingsSystem}

theorem SettingsSystem.Inv.countsHops_iff (h : c.Inv) :
    c.cb.featureConfig.enabled .dhcpRelayHopCountIncrement = true ↔ c.CountsHops := by
  have hhops : c.cb.featureConfig.enabled .dhcpRelayHopCountIncrement = _ :=
    congrArg Settings.hopCountIncrement h.relay
  unfold SettingsSystem.CountsHops
  rw [hhops]
  cases c.dhcpReported with
  | false => exact iff_of_true rfl fun hfalse => absurd hfalse Bool.false_ne_true
  | true =>
    rw [forall_prop_of_true rfl]
    exact Bool.not_eq_true' _ ▸ Iff.rfl

theorem SettingsSystem.Inv.option82On_iff (h : c.Inv) :
    c.cb.featureConfig.enabled .dhcpRelayOption82 = true ↔ c.Option82On := by
  have hoption : c.cb.featureConfig.enabled .dhcpRelayOption82 = _ :=
    congrArg Settings.option82 h.relay
  unfold SettingsSystem.Option82On
  rw [hoption]
  cases c.dhcpReported with
  | false => exact iff_of_false Bool.false_ne_true fun hfalse => absurd hfalse.1 Bool.false_ne_true
  | true => exact (and_iff_right rfl).symm

end switches

/-! ## What is sent -/

section runs

variable {hashInt : UInt32 → UInt32 → UInt32} {tests : AddressTests} {defaultVrfName : CString}
  {ports : Finset CString} {s : System} {t : ServerTables} {a : Arrival} {name : CString}
  {allowed : SMap DhcpConfigKey → Defun → Txn → Prop} {c : SettingsSystem}

/-- The request as it is relayed without option 82: the hops are counted or not, the TTL is one
less, and an agent address that is not set becomes the gateway or the address of the interface. -/
def Arrival.plainRequest (a : Arrival) (name : CString) (gateway : IpAddress) (counts : Bool) :
    Packet :=
  let pkt := Relay.correctPort a.pkt
  let pkt' := if counts then Relay.addToByte pkt (dhcp pkt + hopsOff) 1 else pkt
  Relay.stampGiaddr a.host name gateway (a.host.getLowestIpOnInterface name) (dhcp a.pkt)
    (Relay.addToByte pkt' ipTtlOff (-1))

/-- In every pair of such runs, while option 82 is not enabled a request goes to each helper address
that the tables have for its interface, once and as it came but for the source port, the hops, the
TTL, and the agent address. -/
theorem requests_as_commanded (hfew : ports.card ≤ 65535)
    (h : Runs hashInt tests defaultVrfName (gentleRules defaultVrfName ports) s)
    (hseen : s.Seen t) (hc : SettingsRuns allowed c) (hcfg : a.cfg = c.cb.featureConfig)
    (hoff : ¬c.Option82On) (hat : a.RequestAt name) :
    ∃ d r' ks, s.daemon = .ok d ∧ a.run d.state = .ok r' ∧ Covers t name dhcpsPort ks ∧
      List.Forall₂ (fun k dgram => CarriesCopy (a.host.getLowestIpOnInterface name)
        (a.plainRequest name (t.gateway name) (decide c.CountsHops))
        (ntohs (a.plainRequest name (t.gateway name) (decide c.CountsHops)) ipLenOff)
        k.1 dgram) ks r'.sent := by
  obtain ⟨d, hd, hl, hsynced⟩ := synced_of_seen hfew h hseen
  obtain ⟨r', ks, hrun, hcovers, hsends⟩ := hat.follows hl hsynced
  refine ⟨d, r', ks, hd, hrun, hcovers, ?_⟩
  have hdisabled : ¬a.cfg.enabled .dhcpRelayOption82 = true := by
    rw [hcfg, hc.inv.option82On_iff]
    exact hoff
  have houtcome : a.requestOutcome name (t.gateway name) =
      ⟨.noop, Relay.countHop a.cfg (Relay.correctPort a.pkt), _⟩ := if_pos hdisabled
  have hsent : a.requestSent name (t.gateway name)
      = a.plainRequest name (t.gateway name) (decide c.CountsHops) := by
    unfold Arrival.requestSent Arrival.plainRequest
    rw [houtcome]
    unfold Relay.countHop
    dsimp only
    have hcounts : (decide c.CountsHops) = a.cfg.enabled .dhcpRelayHopCountIncrement := by
      rw [Bool.eq_iff_iff, decide_eq_true_iff, hcfg, hc.inv.countsHops_iff]
    rw [hcounts]
  have hkept : (a.requestOutcome name (t.gateway name)).result ≠ .dropped := by
    rw [houtcome]
    exact fun hfalse => Option82Result.noConfusion hfalse
  have hcopies := hsends.relayed hkept
  rw [hsent] at hcopies
  exact hcopies

/-- The request on interface `1`, processed with the initial settings. -/
def initialRequest : Arrival := { helperRequest with cfg := initialConfig.featureConfig }

theorem initialRequest_requestAt : initialRequest.RequestAt ['1'] where
  cameIn := ⟨helperRequest_requestAt.cameIn.headers, helperRequest_requestAt.cameIn.index,
    helperRequest_requestAt.cameIn.ifName, helperRequest_requestAt.cameIn.address⟩
  forRelay := ⟨helperRequest_requestAt.forRelay.1, by decide +kernel⟩
  op := helperRequest_requestAt.op
  hops := helperRequest_requestAt.hops

/-- The request goes to the helper address, with one hop more. -/
theorem requests_as_commanded_initial : ∃ d r', helperSystem.daemon = .ok d ∧
    initialRequest.run d.state = .ok r' ∧ ∃ dgram, r'.sent = [dgram] ∧
      CarriesCopy 0x0100000a (initialRequest.plainRequest ['1'] 0 true) 272 0x0200000a dgram := by
  have hc : SettingsRuns AnyStep _ := .start ⟨⟨0, .keep, .ip⟩, 0⟩
  obtain ⟨d, r', ks, hd, hrun, hcovers, hcopies⟩ := requests_as_commanded (by decide)
    helperSystem_gentle (Or.inl rfl) hc rfl (fun hon => Bool.false_ne_true hon.1)
    initialRequest_requestAt
  refine ⟨d, r', hd, hrun, ?_⟩
  have hks : ks = [(0x0200000a, dhcpsPort)] := covers_helperTables hcovers
  have hgateway : helperSystem.polled.gateway ['1'] = 0 := by decide +kernel
  have haddress : initialRequest.host.getLowestIpOnInterface ['1'] = 0x0100000a := by decide +kernel
  have hsize : ntohs (initialRequest.plainRequest ['1'] 0 true) ipLenOff = 272 := by decide +kernel
  rw [hgateway, hks, haddress] at hcopies
  obtain ⟨dgram, rest, hcopy, hrest, hsent⟩ := List.forall₂_cons_left_iff.mp hcopies
  rw [List.forall₂_nil_left_iff.mp hrest] at hsent
  refine ⟨dgram, hsent, ?_⟩
  rw [← hsize]
  exact hcopy

end runs

end Udpfwd
end IpApps
