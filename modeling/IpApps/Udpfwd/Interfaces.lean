import IpApps.Udpfwd.CacheRuns
import IpApps.Udpfwd.ServerLoops

/-!
# The interfaces of the cache

The cache as the rest of the daemon sees it: a map from interface names to nodes and
their servers. A change at one node is a change of the interface of its name only.
-/

namespace IpApps
namespace Udpfwd

/-- A state of the daemon with its cache in order. The handlers store parsed addresses
only, so no server has the zero address. -/
structure Cache where
  state : State
  inv : CacheInv state
  addressed : ∀ e ∈ state.intfHashTable, ∀ k ∈ state.keysAt e.2, k.1 ≠ 0

/-- The cache after a list of operations on the empty tables. -/
def Cache.ofCalls (ops : List CacheOp) (s : State)
    (hrun : runCalls (State.empty fun a port => a ^^^ port) ops = some s)
    (haddr : ∀ e ∈ s.intfHashTable, ∀ k ∈ s.keysAt e.2, k.1 ≠ 0) : Cache where
  state := s
  inv := (Reachable.init.runCalls ops hrun).cacheInv
  addressed := haddr

namespace State

variable (s : State)

/-- The node filed under a name with its servers in array order. -/
def interface (name : CString) : Option (UdpfwdInterfaceNode × List ServerKey) :=
  match s.shashFind name with
  | none => none
  | some p => (s.nodes p).map fun n => (n, s.keysAt p)

/-- The servers of an interface, none without a node. -/
def serversOf (name : CString) : Multiset ServerKey :=
  match s.interface name with
  | none => 0
  | some intf => intf.2

/-- The bootp gateway of an interface, 0 without a node. -/
def bootpGwOf (name : CString) : IpAddress :=
  match s.interface name with
  | none => 0
  | some intf => intf.1.bootpGw

end State

theorem Cache.ne_zero (c : Cache) {p : NodePtr} {k : ServerKey} (hk : k ∈ c.state.held p) :
    k.1 ≠ 0 := by
  rw [mem_held] at hk
  cases hp : c.state.nodes p with
  | none =>
    rw [State.keysAt_eq, State.refsAt_eq_nil hp] at hk
    exact absurd hk List.not_mem_nil
  | some n => exact c.addressed _ (c.inv.linked.mem_table hp) k hk

section view

variable {s s' : State} {p : NodePtr} {n : UdpfwdInterfaceNode}

theorem interface_eq (h : Linked s) (hp : s.nodes p = some n) :
    s.interface n.portName = some (n, s.keysAt p) := by
  have hfind := (h.shashFind_eq_some_iff n.portName p).mpr ⟨n, hp, rfl⟩
  rw [State.interface]
  simp only [hfind, hp, Option.map_some]

theorem interface_eq_some {name : CString} {ks : List ServerKey}
    (h : s.interface name = some (n, ks)) :
    ∃ p, s.shashFind name = some p ∧ s.nodes p = some n ∧ s.keysAt p = ks := by
  unfold State.interface at h
  cases hfind : s.shashFind name with
  | none => simp [hfind] at h
  | some p =>
    simp only [hfind, Option.map_eq_some_iff, Prod.mk.injEq] at h
    obtain ⟨m, hm, rfl, hks⟩ := h
    exact ⟨p, rfl, hm, hks⟩

theorem serversOf_eq (h : Linked s) (hp : s.nodes p = some n) :
    s.serversOf n.portName = s.held p := by
  rw [State.serversOf, interface_eq h hp]
  rfl

theorem bootpGwOf_eq (h : Linked s) (hp : s.nodes p = some n) :
    s.bootpGwOf n.portName = n.bootpGw := by
  rw [State.bootpGwOf, interface_eq h hp]

theorem interface_eq_none (h : Linked s) {name : CString}
    (hnone : ∀ p n, s.nodes p = some n → n.portName ≠ name) : s.interface name = none := by
  cases hfind : s.shashFind name with
  | none =>
    rw [State.interface]
    simp only [hfind]
  | some p =>
    obtain ⟨n, hp, hname⟩ := (h.shashFind_eq_some_iff name p).mp hfind
    exact absurd hname (hnone p n hp)

theorem interface_eq_none_iff (h : Linked s) {name : CString} :
    s.interface name = none ↔ s.shashFind name = none := by
  cases hfind : s.shashFind name with
  | none =>
    rw [State.interface]
    simp only [hfind]
  | some p =>
    obtain ⟨n, hp, hname⟩ := (h.shashFind_eq_some_iff name p).mp hfind
    rw [← hname, interface_eq h hp]
    simp

/-- Servers of an interface are counted in its slots. -/
theorem card_filter_serversOf (h : Linked s) (hp : s.nodes p = some n) (P : ServerKey → Prop)
    [DecidablePred P] :
    ((s.serversOf n.portName).filter P).card = ((s.keysAt p).filter P).length := by
  rw [serversOf_eq h hp, State.held, Multiset.filter_coe, Multiset.coe_card]

/-- An interface whose array is not full of the servers `P` has fewer of them than slots. -/
theorem card_filter_serversOf_lt (h : Linked s) {portName : CString} {P : ServerKey → Prop}
    [DecidablePred P] (hfits : ∀ p n, s.nodes p = some n → n.portName = portName →
      ((s.keysAt p).filter P).length ≠ maxUdpBcastServerPerInterface) :
    ((s.serversOf portName).filter P).card < maxUdpBcastServerPerInterface := by
  cases hfind : s.shashFind portName with
  | none =>
    rw [State.serversOf, (interface_eq_none_iff h).mpr hfind]
    exact Nat.lt_of_le_of_lt (Multiset.card_le_card (Multiset.filter_le _ _)) (by decide)
  | some p =>
    obtain ⟨n, hp, rfl⟩ := (h.shashFind_eq_some_iff portName p).mp hfind
    rw [card_filter_serversOf h hp]
    have hle := Nat.le_trans (List.length_filter_le P (s.keysAt p)) (h.length_keysAt_le p)
    exact Nat.lt_of_le_of_ne hle (hfits p n hp rfl)

/-- A change at the node of one name is invisible under every other name. -/
theorem interface_frame (h : Linked s) (h' : Linked s') {name : CString}
    (hothers : ∀ p', p' ≠ p → s'.nodes p' = s.nodes p' ∧ s'.keysAt p' = s.keysAt p')
    (hname : ∀ n, s.nodes p = some n → n.portName = name)
    (hname' : ∀ n, s'.nodes p = some n → n.portName = name) {other : CString}
    (hne : other ≠ name) : s'.interface other = s.interface other := by
  cases hfind : s.shashFind other with
  | some p' =>
    obtain ⟨n, hp', rfl⟩ := (h.shashFind_eq_some_iff other p').mp hfind
    have hpp : p' ≠ p := by
      intro heq
      exact hne (hname n (heq ▸ hp'))
    obtain ⟨hnodes, hkeys⟩ := hothers p' hpp
    rw [interface_eq h hp', interface_eq h' (hnodes.trans hp'), hkeys]
  | none =>
    rw [(interface_eq_none_iff h).mpr hfind]
    apply interface_eq_none h'
    intro p' n hp' hother
    have hpp : p' ≠ p := by
      intro heq
      exact hne (hother.symm.trans (hname' n (heq ▸ hp')))
    rw [(hothers p' hpp).1] at hp'
    have hsome := (h.shashFind_eq_some_iff other p').mpr ⟨n, hp', hother⟩
    rw [hfind] at hsome
    exact absurd hsome (by simp)

theorem held_eq_zero_of_none (hp : s.nodes p = none) : s.held p = 0 := by
  rw [held_eq_zero_iff, State.keysAt_eq, State.refsAt_eq_nil hp]
  rfl

end view

/-! ## The node a handler works on -/

/-- `p` is the node of the interface `portName` in `s₁`, which is `s` but for a node
that may be new and its gateway `bootpGw`. -/
structure NodeFor (s s₁ : State) (p : NodePtr) (n : UdpfwdInterfaceNode) (portName : CString)
    (bootpGw : IpAddress) : Prop where
  inv : CacheInv s₁
  node : s₁.nodes p = some n
  name : n.portName = portName
  gw : n.bootpGw = bootpGw
  held : s₁.held p = s.serversOf portName
  others : ∀ p', p' ≠ p → s₁.nodes p' = s.nodes p' ∧ s₁.keysAt p' = s.keysAt p'
  old : ∀ m, s.nodes p = some m → m.portName = portName
  table : s₁.intfHashTable.length ≤ s.intfHashTable.length + 1

theorem lookupIntferfaceNode_eq {s : State} (h : CacheInv s) (portName : CString) :
    ∃ p s₁ n, lookupIntferfaceNode s portName = (p, s₁) ∧
      NodeFor s s₁ p n portName (s.bootpGwOf portName) := by
  unfold lookupIntferfaceNode
  cases hfind : s.shashFind portName with
  | some p =>
    obtain ⟨n, hp, rfl⟩ := (h.linked.shashFind_eq_some_iff portName p).mp hfind
    refine ⟨p, s, n, rfl, h, hp, rfl, (bootpGwOf_eq h.linked hp).symm,
      (serversOf_eq h.linked hp).symm, fun _ _ => ⟨rfl, rfl⟩, ?_, Nat.le_succ _⟩
    intro m hm
    rw [hp, Option.some.injEq] at hm
    rw [← hm]
  | none =>
    obtain ⟨p, s₁, hrun, hlinked, hcreates, hcounted⟩ :=
      udpfwdCreateIntferfaceNode_eq h.linked hfind
    obtain ⟨n, hp, hname, hgw⟩ := hcreates.node
    have hnone := (interface_eq_none_iff h.linked).mpr hfind
    refine ⟨p, s₁, n, hrun, ⟨hlinked, hcounted h.counted⟩, hp, hname, ?_, ?_,
      hcreates.others, ?_, ?_⟩
    · rw [State.bootpGwOf, hnone, hgw]
    · rw [State.serversOf, hnone, State.held, hcreates.empty]
      rfl
    · intro m hm
      rw [hcreates.fresh] at hm
      exact absurd hm (by simp)
    · rw [hcreates.table, List.length_append, List.length_singleton]

namespace NodeFor

variable {s s₁ s' : State} {p : NodePtr} {n : UdpfwdInterfaceNode} {portName : CString}
  {bootpGw : IpAddress}

theorem setBootpGw (h : NodeFor s s₁ p n portName bootpGw) (gw : IpAddress) :
    NodeFor s (s₁.setNode p { n with bootpGw := gw }) p { n with bootpGw := gw } portName gw := by
  obtain ⟨hlinked, hkeys, hcounted⟩ := setBootpGw_eq h.inv.linked h.node gw
  refine ⟨⟨hlinked, hcounted h.inv.counted⟩, State.nodes_setNode_self, h.name, rfl, ?_, ?_,
    h.old, h.table⟩
  · rw [State.held, hkeys]
    exact h.held
  · intro p' hne
    rw [State.nodes_setNode_of_ne hne, hkeys]
    exact h.others p' hne

/-- After a change at the node every other interface is as it was at first. -/
theorem frame (h : NodeFor s s₁ p n portName bootpGw) (hs : Linked s) (h' : Linked s')
    (hothers : ∀ p', p' ≠ p → s'.nodes p' = s₁.nodes p' ∧ s'.keysAt p' = s₁.keysAt p')
    (hname : ∀ m, s'.nodes p = some m → m.portName = portName) (other : CString)
    (hne : other ≠ portName) : s'.interface other = s.interface other := by
  refine interface_frame hs h' ?_ h.old hname hne
  intro p' hp'
  exact ⟨(hothers p' hp').1.trans (h.others p' hp').1,
    (hothers p' hp').2.trans (h.others p' hp').2⟩

end NodeFor

end Udpfwd
end IpApps
