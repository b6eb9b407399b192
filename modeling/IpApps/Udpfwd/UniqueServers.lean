import IpApps.Udpfwd.HandlerRuns
import IpApps.Udpfwd.RelayLoop

/-!
# Servers are held once

The handlers compare the addresses of a row with the servers of the interface, and not
with each other. As long as no row stores an address twice every interface holds a server
once, so that a reference count is a number of interfaces and a packet is sent to a server
once.
-/

namespace IpApps
namespace Udpfwd

open ExceptLoops

/-- No interface holds a server twice. -/
def OnceHeld (s : State) : Prop := ∀ portName, (s.serversOf portName).Nodup

/-- The edit stores no server twice, and none that the interface keeps. -/
def RowEdit.StoresOnce (e : RowEdit) : Prop := e.stored.Nodup ∧ ∀ k ∈ e.stored, k ∉ e.kept

instance (e : RowEdit) : Decidable e.StoresOnce :=
  inferInstanceAs (Decidable (_ ∧ _))

/-- The row of the call does so. -/
def HandlerCall.StoresOnce (s : State) (call : HandlerCall) : Prop :=
  ∀ e, call.edit s = some e → e.StoresOnce

/-! ## Runs -/

section runs

variable {c : Cache} {s' : State}

theorem HandlerCall.onceHeld {call : HandlerCall} (honce : OnceHeld c.state)
    (hstores : call.StoresOnce c.state) (hrun : call.apply c.state = .ok s') : OnceHeld s' := by
  intro portName
  cases HandlerCall.outcome hrun with
  | unchanged _ hsame => exact hsame ▸ honce portName
  | deleted _ _ hle => exact Multiset.nodup_of_le (hle portName) (honce portName)
  | edited e hedit h =>
    by_cases hname : portName = e.portName
    · obtain ⟨hnodup, hdisjoint⟩ := hstores e hedit
      rw [hname, h.servers, Multiset.nodup_add]
      refine ⟨Multiset.nodup_of_le h.kept (honce e.portName), hnodup, ?_⟩
      rw [Multiset.disjoint_left]
      exact fun hkept hstored => hdisjoint _ hstored hkept
    · unfold State.serversOf
      rw [h.frame portName hname]
      exact honce portName

/-- How many interfaces hold a server. -/
def State.interfacesWith (s : State) (k : ServerKey) : ℕ :=
  s.names.countP fun name => k ∈ s.serversOf name

/-- With every server held once, its slots are as many as the interfaces that hold it. -/
theorem OnceHeld.uses_eq {s : State} (h : OnceHeld s) (k : ServerKey) :
    s.uses k = s.interfacesWith k := by
  unfold State.uses State.interfacesWith
  induction s.names with
  | nil => rfl
  | cons name names ih =>
    rw [List.map_cons, List.sum_cons, List.countP_cons, ih, Nat.add_comm]
    congr 1
    by_cases hk : k ∈ s.serversOf name
    · rw [Multiset.count_eq_one_of_mem (h name) hk, if_pos (by simpa using hk)]
    · rw [Multiset.count_eq_zero_of_notMem hk, if_neg (by simpa using hk)]

end runs

/-! ## Packets -/

namespace Relay

variable {host : Host} {r r' : Relay} {p : NodePtr}

theorem keysAt_nodup (hl : Linked r.state) (honce : OnceHeld r.state) {n : UdpfwdInterfaceNode}
    (hp : r.state.nodes p = some n) : (r.state.keysAt p).Nodup := by
  have hservers := honce n.portName
  rw [serversOf_eq hl hp] at hservers
  exact Multiset.coe_nodup.mp hservers

theorem forwardPacket_destinations {udpDport : UInt16} {size : ℕ} (hl : Linked r.state)
    (honce : OnceHeld r.state) (hsent : r.sent = [])
    (hrun : forwardPacket host udpDport size r = .ok r') : r'.destinations.Nodup := by
  have hnone : r.destinations = [] := by rw [destinations, hsent, List.map_nil]
  rw [forwardPacket_eq udpDport hl, Except.ok.injEq] at hrun
  rw [← hrun]
  unfold forwarded
  cases hnode : forwardNode host r with
  | none =>
    rw [hnone]
    exact List.nodup_nil
  | some found =>
    have hfind := forwardNode_eq_some hnode
    obtain ⟨n, hp, -⟩ := (hl.shashFind_eq_some_iff _ found.2).mp hfind
    dsimp only
    rw [destinations_forwardLoop, hnone, List.nil_append]
    exact (keysAt_nodup hl honce hp).filter _

theorem relayToDhcpServer_destinations {cfg : FeatureConfig} (hl : Linked r.state)
    (honce : OnceHeld r.state) (hsent : r.sent = [])
    (hrun : relayToDhcpServer cfg host r = .ok r') : r'.destinations.Nodup := by
  have hnone : r.destinations = [] := by rw [destinations, hsent, List.map_nil]
  cases hnode : requestNode host r with
  | none =>
    obtain ⟨pkt, hnothing⟩ := @relayToDhcpServer_none host r cfg hnode
    rw [hnothing, Except.ok.injEq] at hrun
    rw [← hrun, destinations, hsent]
    exact List.nodup_nil
  | some found =>
    obtain ⟨ifName, p⟩ := found
    obtain ⟨-, -, -, -, hfind⟩ := requestNode_eq_some hnode
    obtain ⟨n, hp, -⟩ := (hl.shashFind_eq_some_iff ifName p).mp hfind
    rw [relayToDhcpServer_some hnode, relayRequest_eq cfg ifName hl hp] at hrun
    -- the loop sends to a part of the servers of the node, in their order
    have hkeys := keysAt_nodup hl honce hp
    rw [← Except.ok.inj hrun]
    unfold requestRelayed relayedTo
    generalize requestOutcome cfg host ifName n r = outcome
    dsimp only
    cases outcome.result with
    | dropped =>
      show r.destinations.Nodup
      rw [hnone]
      exact List.nodup_nil
    | valid =>
      rw [destinations_relayLoop]
      show (r.destinations ++ _).Nodup
      rw [hnone, List.nil_append]
      exact hkeys.filter _
    | noop =>
      rw [destinations_relayLoop]
      show (r.destinations ++ _).Nodup
      rw [hnone, List.nil_append]
      exact hkeys.filter _

theorem sendReply_sent {ifIndex : UInt32} {sinAddr : IpAddress}
    (hrun : sendReply host ifIndex p sinAddr r = .ok r') : r'.sent.length = r.sent.length + 1 := by
  unfold sendReply at hrun
  simp only [sendPktThroughSocket] at hrun
  obtain ⟨s, -, hrun⟩ := bind_eq_ok hrun
  rw [← Except.ok.inj hrun]
  exact List.length_append

theorem relayToClient_sent {rounds : ℕ} {ifIndex : UInt32} {ifName : CString} {dhcp : ℤ}
    (hrun : relayToClient rounds host ifIndex ifName p dhcp r = .ok r') :
    r'.sent.length ≤ r.sent.length + 1 := by
  unfold relayToClient at hrun
  split at hrun
  · exact absurd hrun (by simp)
  · split at hrun
    · exact Nat.le_of_eq (sendReply_sent hrun)
    · obtain ⟨s, -, hrun⟩ := bind_eq_ok hrun
      rw [← Except.ok.inj hrun]
      exact Nat.le_succ _
    · dsimp only at hrun
      split at hrun
      · exact absurd hrun (by simp)
      · have hlen := sendReply_sent hrun
        exact Nat.le_of_eq hlen

/-- A reply goes to one client at most. -/
theorem relayToDhcpClient_sent {rounds : ℕ} {cfg : FeatureConfig}
    (hrun : relayToDhcpClient rounds cfg host r = .ok r') :
    r'.sent.length ≤ r.sent.length + 1 := by
  unfold relayToDhcpClient at hrun
  dsimp only at hrun
  split at hrun
  · rw [← Except.ok.inj hrun]
    exact Nat.le_succ _
  · split at hrun
    · rw [← Except.ok.inj hrun]
      exact Nat.le_succ _
    · split at hrun
      · rw [← Except.ok.inj hrun]
        exact Nat.le_succ _
      · split at hrun
        · obtain ⟨s, -, hrun⟩ := bind_eq_ok hrun
          rw [← Except.ok.inj hrun]
          exact Nat.le_succ _
        · obtain ⟨s, -, hrun⟩ := bind_eq_ok hrun
          have hlen := relayToClient_sent hrun
          exact hlen
        · have hlen := relayToClient_sent hrun
          exact hlen

/-- With every server held once a packet is sent to a server once. -/
theorem udpfwdCtrl_destinations {rounds size : ℕ} {cfg : FeatureConfig} (hl : Linked r.state)
    (honce : OnceHeld r.state) (hsent : r.sent = [])
    (hrun : udpfwdCtrl rounds cfg host size r = .ok r') : r'.destinations.Nodup := by
  have hnone : ∀ {x : Relay}, (.ok r : Except Fault Relay) = .ok x → x.destinations.Nodup := by
    intro x hx
    rw [← Except.ok.inj hx, destinations, hsent]
    exact List.nodup_nil
  unfold udpfwdCtrl at hrun
  dsimp only at hrun
  split at hrun
  · split at hrun
    · exact hnone hrun
    · split at hrun
      · exact relayToDhcpServer_destinations hl honce hsent hrun
      · split at hrun
        · split at hrun
          · have hlen := relayToDhcpClient_sent hrun
            rw [hsent, List.length_nil, Nat.zero_add] at hlen
            unfold destinations
            rcases hsends : r'.sent with _ | ⟨d, _ | ⟨d', ds⟩⟩
            · exact List.nodup_nil
            · exact List.nodup_singleton _
            · rw [hsends] at hlen
              simp at hlen
          · exact hnone hrun
        · exact hnone hrun
  · split at hrun
    · exact hnone hrun
    · exact forwardPacket_destinations hl honce hsent hrun

end Relay

/-- In every state of a run of handler calls whose rows store each server once, no interface
holds a server twice, reference counts are numbers of interfaces, and no packet is sent
twice to one server. -/
theorem servers_held_once {hashInt : UInt32 → UInt32 → UInt32} {s : State}
    (h : HandlerRun hashInt (fun s call => call.CountsFit s ∧ call.StoresOnce s) s) :
    (∀ p n, s.nodes p = some n → (s.keysAt p).Nodup) ∧
    (∀ q r, s.servers q = some r → r.refCount.toNat = s.interfacesWith r.key) ∧
    ∀ rounds cfg host size (r r' : Relay), r.state = s → r.sent = [] →
      Relay.udpfwdCtrl rounds cfg host size r = .ok r' → r'.destinations.Nodup := by
  have hempty : OnceHeld (State.empty hashInt) := fun _ => Multiset.nodup_zero
  have hstep : ∀ (c : Cache) (call : HandlerCall) s', OnceHeld c.state →
      call.CountsFit c.state ∧ call.StoresOnce c.state → call.apply c.state = .ok s' →
      OnceHeld s' :=
    fun c call s' honce hmeets hrun => HandlerCall.onceHeld honce hmeets.2 hrun
  obtain ⟨⟨c, rfl⟩, honce⟩ := h.invariant (fun _ _ hmeets => hmeets.1) hempty hstep
  have hl := c.inv.linked
  refine ⟨fun p n hp => ?_, fun q r hr => ?_, ?_⟩
  · have hservers := honce n.portName
    rw [serversOf_eq hl hp] at hservers
    exact Multiset.coe_nodup.mp hservers
  · rw [c.inv.counted.total q r hr, hl.refTotal_eq_uses hr, honce.uses_eq]
  · intro rounds cfg host size r r' hr hsent hrun
    exact Relay.udpfwdCtrl_destinations (hr ▸ hl) (hr ▸ honce) hsent hrun

/-- A row with two helpers is inserted. -/
def twoHelpersInserted : HandlerCall :=
  .dhcpRelayConfigChange ⟨some ['1'], some ['v'], none, ["10.0.0.1".toList, "10.0.0.2".toList]⟩
    ⟨false, true⟩

theorem servers_held_once_two_helpers :
    ∃ s, HandlerRun (fun a port => a ^^^ port)
        (fun s call => call.CountsFit s ∧ call.StoresOnce s) s ∧
      s.keysAt 0 = [(0x0100000a, 67), (0x0200000a, 67)] ∧
      ∀ p n, s.nodes p = some n → (s.keysAt p).Nodup := by
  have hmeets : twoHelpersInserted.CountsFit (State.empty fun a port => a ^^^ port) ∧
      twoHelpersInserted.StoresOnce (State.empty fun a port => a ^^^ port) := by
    constructor
    · intro e hedit
      obtain rfl := Option.some.inj hedit
      decide
    · intro e hedit
      obtain rfl := Option.some.inj hedit
      decide
  have hinit : HandlerRun (fun a port => a ^^^ port)
      (fun s call => call.CountsFit s ∧ call.StoresOnce s) _ := .init
  have hrun := hinit.step twoHelpersInserted hmeets rfl
  exact ⟨_, hrun, by decide, (servers_held_once hrun).1⟩

/-- Two strings for one address: the server is stored twice, and counted twice for one
interface. -/
theorem one_address_stored_twice :
    ∃ s, HandlerCall.apply (State.empty fun a port => a ^^^ port) (.dhcpRelayConfigChange
        ⟨some ['1'], some ['v'], none, ["10.0.0.1".toList, "10.0.1".toList]⟩ ⟨false, true⟩)
        = .ok s ∧
      s.keysAt 0 = [(0x0100000a, 67), (0x0100000a, 67)] ∧
      s.servers 0 = some ⟨0x0100000a, 67, 2⟩ ∧ s.interfacesWith (0x0100000a, 67) = 1 :=
  ⟨_, rfl, by decide, rfl, by decide⟩

end Udpfwd
end IpApps
