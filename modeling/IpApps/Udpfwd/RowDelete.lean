import IpApps.Udpfwd.ConfigChange

/-!
# Deleted rows

The row-delete handlers walk the interface table and drop, on each interface, the servers
that no row of the table keeps. Names are compared with `strncmp` up to the length of the
row's name, which makes a prefix as good as the name.
-/

namespace IpApps
namespace Udpfwd

open ExceptLoops Libc

/-! ## One interface -/

/-- What the walk sees of an interface. -/
def State.view (s : State) (p : NodePtr) : Option UdpfwdInterfaceNode × List ServerKey :=
  (s.nodes p, s.keysAt p)

/-- The interface keeps the servers `left` and the gateway `bootpGw`, or is freed without
them. -/
structure Cleared (portName : CString) (bootpGw : IpAddress) (left : Multiset ServerKey)
    (v : Option UdpfwdInterfaceNode × List ServerKey) : Prop where
  held : (v.2 : Multiset ServerKey) = left
  node : ∀ n, v.1 = some n → n.portName = portName ∧ n.bootpGw = bootpGw
  freed : v.1 = none → bootpGw = 0 ∧ v.2 = []

/-- What the walk relies on at an entry of the table. -/
def LiveEntry (e : CString × NodePtr) (v : Option UdpfwdInterfaceNode × List ServerKey) : Prop :=
  (∃ n, v.1 = some n ∧ n.portName = e.1) ∧ ∀ k ∈ v.2, k.1 ≠ 0

section one

variable {s : State} {p : NodePtr} {n : UdpfwdInterfaceNode}

/-- Deleting the servers that satisfy `drop`. -/
theorem dropServers_eq (h : CacheInv s) (hp : s.nodes p = some n)
    (hnonzero : ∀ k ∈ s.keysAt p, k.1 ≠ 0) (drop : ServerKey → Prop) [DecidablePred drop] :
    (((s.keysAt p).filter drop).length = maxUdpBcastServerPerInterface →
      removeServers p ((s.keysAt p).filter drop) s = .error .scratchBounds) ∧
    (((s.keysAt p).filter drop).length ≠ maxUdpBcastServerPerInterface →
      ∃ s', removeServers p ((s.keysAt p).filter drop) s = .ok s' ∧ CacheInv s' ∧
        Cleared n.portName n.bootpGw ((s.held p).filter fun k => ¬drop k) (s'.view p) ∧
        ∀ p', p' ≠ p → s'.view p' = s.view p') := by
  set gone := (s.keysAt p).filter drop with hgone
  have hsub : s.held p - (gone : Multiset ServerKey) = (s.held p).filter fun k => ¬drop k := by
    rw [hgone, ← Multiset.filter_coe, ← State.held]
    exact Multiset.sub_filter_eq_filter_not drop (s.held p)
  have hzero : ∀ k ∈ gone, k.1 ≠ 0 := fun k hk => hnonzero k (List.mem_of_mem_filter hk)
  -- the list fills its array, or takes the node with it, or leaves the node
  rcases removeServers_eq h hp hzero (List.length_filter_le _ _) with hfull | hfreed | hstays
  · obtain ⟨hlen, hrun⟩ := hfull
    exact ⟨fun _ => hrun, fun hne => absurd hlen hne⟩
  · obtain ⟨hlen, ⟨hgw, _, hleft⟩, s', hrun, hinv, hfrees⟩ := hfreed
    refine ⟨fun heq => absurd heq (Nat.ne_of_lt hlen), fun _ => ⟨s', hrun, hinv, ⟨?_, ?_, ?_⟩, ?_⟩⟩
    · rw [← hsub, hleft]
      exact held_eq_zero_of_none hfrees.node
    · intro m hm
      rw [State.view, hfrees.node] at hm
      exact absurd hm (by simp)
    · exact fun _ => ⟨hgw, held_eq_zero_iff.mp (held_eq_zero_of_none hfrees.node)⟩
    · intro p' hne
      rw [State.view, State.view, (hfrees.others p' hne).1, (hfrees.others p' hne).2]
  · obtain ⟨hlen, _, s', hrun, hinv, htouch, hheld⟩ := hstays
    obtain ⟨n', hp', hname, hgw, _⟩ := htouch.node n hp
    refine ⟨fun heq => absurd heq (Nat.ne_of_lt hlen), fun _ => ⟨s', hrun, hinv, ⟨?_, ?_, ?_⟩, ?_⟩⟩
    · rw [← hsub, ← hheld]
      rfl
    · intro m hm
      rw [State.view, hp', Option.some.injEq] at hm
      rw [← hm]
      exact ⟨hname, hgw⟩
    · intro hnone
      rw [State.view, hp'] at hnone
      exact absurd hnone (by simp)
    · intro p' hne
      rw [State.view, State.view, (htouch.others p' hne).1, (htouch.others p' hne).2]

theorem filterMap_ite_eq_filter (ks : List ServerKey) (drop : ServerKey → Prop)
    [DecidablePred drop] :
    ks.filterMap (fun k => if drop k then some k else none) = ks.filter drop := by
  induction ks with
  | nil => rfl
  | cons k ks ih =>
    by_cases hk : drop k
    · simp [hk, ih]
    · simp [hk, ih]

end one

/-! ## The walk over the table -/

section walk

variable {s s' : State}

/-- The walk visits each node once. -/
theorem Linked.table_pointers_nodup (h : Linked s) : (s.intfHashTable.map Prod.snd).Nodup := by
  refine (List.nodup_map_iff_inj_on h.table_nodup).mpr ?_
  intro e he e' he' heq
  obtain ⟨n, hn, hname⟩ := (h.listed e.1 e.2).mp he
  rw [h.table_eq_of_snd hn he' heq.symm, hname]

theorem Cache.liveEntry (c : Cache) :
    ∀ e ∈ c.state.intfHashTable, LiveEntry e (c.state.view e.2) := by
  intro e he
  exact ⟨(c.inv.linked.listed e.1 e.2).mp he, c.addressed e he⟩

/-- What both walks do to the nodes: those of the table keep their names, and there are no
others. -/
structure Walked (s s' : State) : Prop where
  linked : Linked s'
  names : ∀ e ∈ s.intfHashTable, ∀ m, (s'.view e.2).1 = some m → m.portName = e.1
  others : ∀ p, p ∉ s.intfHashTable.map Prod.snd → s'.view p = s.view p

namespace Walked

variable (hw : Walked s s') (h : Linked s)

include hw h

theorem node_of_node {p : NodePtr} {m : UdpfwdInterfaceNode} (hm : s'.nodes p = some m) :
    ∃ n, s.nodes p = some n ∧ n.portName = m.portName := by
  by_cases hp : p ∈ s.intfHashTable.map Prod.snd
  · obtain ⟨e, he, rfl⟩ := List.mem_map.mp hp
    obtain ⟨n, hn, hname⟩ := (h.listed e.1 e.2).mp he
    exact ⟨n, hn, hname.trans (hw.names e he m hm).symm⟩
  · have hview := congrArg Prod.fst (hw.others p hp)
    exact ⟨m, hview.symm.trans hm, rfl⟩

theorem interface_eq_map {p : NodePtr} {n : UdpfwdInterfaceNode} (hp : s.nodes p = some n) :
    s'.interface n.portName = (s'.nodes p).map fun m => (m, s'.keysAt p) := by
  cases hp' : s'.nodes p with
  | some m =>
    obtain ⟨n₀, hn₀, hname⟩ := hw.node_of_node h hp'
    rw [hp, Option.some.injEq] at hn₀
    rw [hn₀, hname, interface_eq hw.linked hp']
    rfl
  | none =>
    apply interface_eq_none hw.linked
    intro p₁ m hm hname
    obtain ⟨n₁, hn₁, hname₁⟩ := hw.node_of_node h hm
    have h₁ := (h.shashFind_eq_some_iff n.portName p₁).mpr ⟨n₁, hn₁, hname₁.trans hname⟩
    have h₂ := (h.shashFind_eq_some_iff n.portName p).mpr ⟨n, hp, rfl⟩
    rw [h₁, Option.some.injEq] at h₂
    rw [h₂, hp'] at hm
    exact absurd hm (by simp)

theorem serversOf_eq_held {p : NodePtr} {n : UdpfwdInterfaceNode} (hp : s.nodes p = some n) :
    s'.serversOf n.portName = s'.held p := by
  rw [State.serversOf, hw.interface_eq_map h hp]
  cases hp' : s'.nodes p with
  | some m => rfl
  | none => exact (held_eq_zero_of_none hp').symm

/-- No interface appears. -/
theorem interface_eq_none_of_none {portName : CString} (hnone : s.interface portName = none) :
    s'.interface portName = none := by
  apply interface_eq_none hw.linked
  intro p m hm hname
  obtain ⟨n, hn, hname'⟩ := hw.node_of_node h hm
  rw [← hname, ← hname', interface_eq h hn] at hnone
  exact absurd hnone (by simp)

/-- An interface that was cleared keeps the servers `left`. -/
theorem of_cleared {p : NodePtr} {n : UdpfwdInterfaceNode} (hp : s.nodes p = some n)
    {bootpGw : IpAddress} {left : Multiset ServerKey}
    (hcleared : Cleared n.portName bootpGw left (s'.view p)) :
    s'.serversOf n.portName = left ∧ s'.bootpGwOf n.portName = bootpGw := by
  constructor
  · rw [hw.serversOf_eq_held h hp]
    exact hcleared.held
  · rw [State.bootpGwOf, hw.interface_eq_map h hp]
    cases hp' : s'.nodes p with
    | some m => exact (hcleared.node m hp').2
    | none => exact (hcleared.freed hp').1.symm

end Walked

end walk

/-! ## `udpfwd_handle_dhcp_relay_row_delete` -/

section dhcpRelay

variable (rows : List DhcpRelayRow)

/-- Some row's port is the interface, or a prefix of its name. -/
def DhcpRelayPrefixRow (portName : CString) : Prop :=
  ∃ rec ∈ rows, ∃ name, rec.port = some name ∧ name <+: portName

theorem dhcpRelayRow_found_iff (portName : CString) :
    (rows.any fun rec =>
      match rec.port with
      | some name => strncmp name portName name.length = 0
      | none => false) = true ↔ DhcpRelayPrefixRow rows portName := by
  rw [List.any_eq_true]
  refine exists_congr fun rec => and_congr_right fun _ => ?_
  cases rec.port with
  | none => simp
  | some name => simp [strncmp_length_eq_zero_iff]

/-- What becomes of an interface. -/
def DhcpRelayRowDeleted (e : CString × NodePtr)
    (v v' : Option UdpfwdInterfaceNode × List ServerKey) : Prop :=
  (DhcpRelayPrefixRow rows e.1 → v' = v) ∧
    (¬DhcpRelayPrefixRow rows e.1 →
      Cleared e.1 0 ((v.2 : Multiset ServerKey).filter fun k => ¬k.2 = dhcpsPort) v')

/-- An interface without a row that has a full array of helpers. -/
def DhcpRelayOverrun (e : CString × NodePtr)
    (v : Option UdpfwdInterfaceNode × List ServerKey) : Prop :=
  ¬DhcpRelayPrefixRow rows e.1 ∧
    (v.2.filter fun k => k.2 = dhcpsPort).length = maxUdpBcastServerPerInterface

/-- The step at an interface that no row is found for. -/
theorem dhcpRelayRowDeleteIntf_orphan {s : State} (h : CacheInv s) {e : CString × NodePtr}
    {n : UdpfwdInterfaceNode} (hp : s.nodes e.2 = some n)
    (hrow : ¬DhcpRelayPrefixRow rows e.1) :
    ∃ s₁, CacheInv s₁ ∧ s₁.nodes e.2 = some { n with bootpGw := 0 } ∧
      s₁.keysAt e.2 = s.keysAt e.2 ∧ (∀ p, p ≠ e.2 → s₁.view p = s.view p) ∧
      dhcpRelayRowDeleteIntf rows s e
        = removeServers e.2 ((s.keysAt e.2).filter fun k => k.2 = dhcpsPort) s₁ := by
  obtain ⟨hlinked, hkeys, hcounted⟩ := setBootpGw_eq h.linked hp 0
  refine ⟨s.setNode e.2 { n with bootpGw := 0 }, ⟨hlinked, hcounted h.counted⟩,
    State.nodes_setNode_self, hkeys e.2, ?_, ?_⟩
  · intro p hne
    rw [State.view, State.view, State.nodes_setNode_of_ne hne, hkeys]
  · have hfound := mt (dhcpRelayRow_found_iff rows e.1).mp hrow
    have hcollect := collectServers_eq hlinked State.nodes_setNode_self fun server =>
      if server.2 = dhcpsPort then some server else none
    rw [hkeys, filterMap_ite_eq_filter] at hcollect
    unfold dhcpRelayRowDeleteIntf
    refine (if_neg hfound).trans ?_
    show (s.node e.2 >>= _) = _
    rw [s.node_eq_ok hp, ok_bind]
    exact congrArg (· >>= fun servers => removeServers e.2 servers _) hcollect

theorem dhcpRelayRowDeleteIntf_step (s : State) (e : CString × NodePtr) (h : CacheInv s)
    (hlive : LiveEntry e (s.view e.2)) (hfits : ¬DhcpRelayOverrun rows e (s.view e.2)) :
    ∃ s', dhcpRelayRowDeleteIntf rows s e = .ok s' ∧ CacheInv s' ∧
      DhcpRelayRowDeleted rows e (s.view e.2) (s'.view e.2) ∧
      ∀ p, p ≠ e.2 → s'.view p = s.view p := by
  obtain ⟨⟨n, hp, hname⟩, hnonzero⟩ := hlive
  by_cases hrow : DhcpRelayPrefixRow rows e.1
  · refine ⟨s, ?_, h, ⟨fun _ => rfl, fun hnot => absurd hrow hnot⟩, fun _ _ => rfl⟩
    unfold dhcpRelayRowDeleteIntf
    exact if_pos ((dhcpRelayRow_found_iff rows e.1).mpr hrow)
  · obtain ⟨s₁, hinv₁, hp₁, hkeys, hothers, hrun⟩ := dhcpRelayRowDeleteIntf_orphan rows h hp hrow
    -- without a row the helpers did not fill the array
    have hlen : ((s₁.keysAt e.2).filter fun k => k.2 = dhcpsPort).length
        ≠ maxUdpBcastServerPerInterface := by
      rw [hkeys]
      exact fun hfull => hfits ⟨hrow, hfull⟩
    obtain ⟨s', hrun', hinv', hcleared, hothers'⟩ :=
      (dropServers_eq hinv₁ hp₁ (by rw [hkeys]; exact hnonzero)
        fun k => k.2 = dhcpsPort).2 hlen
    refine ⟨s', ?_, hinv', ⟨fun hcase => absurd hcase hrow, fun _ => ?_⟩, ?_⟩
    · rw [hrun, ← hkeys, hrun']
    · rw [State.held, hkeys] at hcleared
      rw [← hname]
      exact hcleared
    · intro p hne
      rw [hothers' p hne, hothers p hne]

theorem dhcpRelayRowDeleteIntf_overrun (s : State) (e : CString × NodePtr) (h : CacheInv s)
    (hlive : LiveEntry e (s.view e.2)) (hover : DhcpRelayOverrun rows e (s.view e.2)) :
    dhcpRelayRowDeleteIntf rows s e = .error .scratchBounds := by
  obtain ⟨⟨n, hp, _⟩, hnonzero⟩ := hlive
  obtain ⟨hrow, hfull⟩ := hover
  obtain ⟨s₁, hinv₁, hp₁, hkeys, _, hrun⟩ := dhcpRelayRowDeleteIntf_orphan rows h hp hrow
  rw [hrun, ← hkeys]
  refine (dropServers_eq hinv₁ hp₁ (by rw [hkeys]; exact hnonzero) fun k => k.2 = dhcpsPort).1 ?_
  rw [hkeys]
  exact hfull

/-- What a deleted row asks for: interfaces with a row are as before, and the others have
neither helpers nor a gateway. -/
def CleansOrphans (s : State) (r : Except Fault State) : Prop :=
  ∃ s', r = .ok s' ∧ ∀ portName,
    ((∃ rec ∈ rows, rec.port = some portName) →
      s'.interface portName = s.interface portName) ∧
    ((∀ rec ∈ rows, rec.port ≠ some portName) →
      (s'.serversOf portName).filter (·.2 = dhcpsPort) = 0 ∧ s'.bootpGwOf portName = 0 ∧
      (s'.serversOf portName).filter (·.2 ≠ dhcpsPort)
        = (s.serversOf portName).filter (·.2 ≠ dhcpsPort))

/-- An interface comes out right if it has a row, or no helpers and no gateway where a row
is named by a prefix of its name, or at most fifteen helpers. -/
def DhcpRelayRowDeletable (s : State) (portName : CString) : Prop :=
  (∃ rec ∈ rows, rec.port = some portName) ∨
    (DhcpRelayPrefixRow rows portName ∧
      (s.serversOf portName).filter (·.2 = dhcpsPort) = 0 ∧ s.bootpGwOf portName = 0) ∨
    (¬DhcpRelayPrefixRow rows portName ∧
      ((s.serversOf portName).filter (·.2 = dhcpsPort)).card < maxUdpBcastServerPerInterface)

theorem dhcpRelayPrefixRow_of_exact {portName : CString}
    (h : ∃ rec ∈ rows, rec.port = some portName) : DhcpRelayPrefixRow rows portName := by
  obtain ⟨rec, hrec, hport⟩ := h
  exact ⟨rec, hrec, portName, hport, List.prefix_refl portName⟩

/-- A run without an overrun, interface by interface. -/
theorem dhcpRelayRowDelete_walk (c : Cache)
    (hfits : ∀ e ∈ c.state.intfHashTable, ¬DhcpRelayOverrun rows e (c.state.view e.2)) :
    ∃ s', udpfwdHandleDhcpRelayRowDelete c.state rows = .ok s' ∧ Walked c.state s' ∧
      ∀ e ∈ c.state.intfHashTable,
        DhcpRelayRowDeleted rows e (c.state.view e.2) (s'.view e.2) := by
  obtain ⟨s', hrun, hinv, hlocal, hothers⟩ := foldlM_walk (dhcpRelayRowDeleteIntf_step rows)
    c.state.intfHashTable c.inv.linked.table_pointers_nodup c.inv c.liveEntry hfits
  refine ⟨s', hrun, ⟨hinv.linked, ?_, hothers⟩, hlocal⟩
  intro e he m hm
  obtain ⟨hfound, horphan⟩ := hlocal e he
  by_cases hrow : DhcpRelayPrefixRow rows e.1
  · rw [hfound hrow] at hm
    obtain ⟨n, hn, hname⟩ := (c.liveEntry e he).1
    rw [hn, Option.some.injEq] at hm
    rw [← hm, hname]
  · exact ((horphan hrow).node m hm).1

/-- What a run without an overrun leaves of an interface. -/
theorem dhcpRelayRowDelete_interface (c : Cache) {s' : State} (hw : Walked c.state s')
    (hlocal : ∀ e ∈ c.state.intfHashTable,
      DhcpRelayRowDeleted rows e (c.state.view e.2) (s'.view e.2)) (portName : CString) :
    (DhcpRelayPrefixRow rows portName → s'.interface portName = c.state.interface portName) ∧
    (¬DhcpRelayPrefixRow rows portName →
      s'.serversOf portName = (c.state.serversOf portName).filter (fun k => ¬k.2 = dhcpsPort) ∧
      s'.bootpGwOf portName = 0) := by
  have hl := c.inv.linked
  -- a name that is not in the table has neither servers nor a gateway, before and after
  cases hfind : c.state.shashFind portName with
  | none =>
    have hnone := (interface_eq_none_iff hl).mpr hfind
    have hnone' := hw.interface_eq_none_of_none hl hnone
    refine ⟨fun _ => hnone'.trans hnone.symm, fun _ => ?_⟩
    simp only [State.serversOf, State.bootpGwOf, hnone, hnone']
    exact ⟨rfl, trivial⟩
  | some p =>
    obtain ⟨n, hp, rfl⟩ := (hl.shashFind_eq_some_iff portName p).mp hfind
    obtain ⟨hfound, horphan⟩ := hlocal _ (hl.mem_table hp)
    constructor
    · intro hrow
      have hview := hfound hrow
      have hnodes : s'.nodes p = c.state.nodes p := congrArg Prod.fst hview
      have hkeys : s'.keysAt p = c.state.keysAt p := congrArg Prod.snd hview
      rw [hw.interface_eq_map hl hp, interface_eq hl hp, hnodes, hp, hkeys]
      rfl
    · intro hrow
      rw [serversOf_eq hl hp]
      exact hw.of_cleared hl hp (horphan hrow)

theorem dhcpRelayRowDelete_cleansOrphans_iff (c : Cache) :
    CleansOrphans rows c.state (udpfwdHandleDhcpRelayRowDelete c.state rows) ↔
      ∀ portName, DhcpRelayRowDeletable rows c.state portName := by
  have hl := c.inv.linked
  by_cases hover : ∃ e ∈ c.state.intfHashTable, DhcpRelayOverrun rows e (c.state.view e.2)
  · -- an interface with a full array of helpers and no row
    have hrun : udpfwdHandleDhcpRelayRowDelete c.state rows = .error .scratchBounds :=
      foldlM_walk_error (dhcpRelayRowDeleteIntf_step rows) (dhcpRelayRowDeleteIntf_overrun rows)
        c.state.intfHashTable hl.table_pointers_nodup c.inv c.liveEntry hover
    obtain ⟨e, he, hrow, hfull⟩ := hover
    obtain ⟨n, hp, hname⟩ := (hl.listed e.1 e.2).mp he
    refine iff_of_false ?_ ?_
    · intro hcase
      obtain ⟨s', hrun', _⟩ := hcase
      rw [hrun] at hrun'
      exact absurd hrun' (by simp)
    · intro hall
      rcases hall e.1 with hexact | hprefix | hfits
      · exact hrow (dhcpRelayPrefixRow_of_exact rows hexact)
      · exact hrow hprefix.1
      · have hcard := hfits.2
        rw [← hname, card_filter_serversOf hl hp] at hcard
        exact absurd hfull (Nat.ne_of_lt hcard)
  · obtain ⟨s', hrun, hw, hlocal⟩ :=
      dhcpRelayRowDelete_walk rows c fun e he hcase => hover ⟨e, he, hcase⟩
    have hintf := dhcpRelayRowDelete_interface rows c hw hlocal
    constructor
    · intro hcleans portName
      obtain ⟨s'', hrun', hnames⟩ := hcleans
      rw [hrun, Except.ok.injEq] at hrun'
      subst hrun'
      by_cases hexact : ∃ rec ∈ rows, rec.port = some portName
      · exact Or.inl hexact
      · right
        obtain ⟨hhelpers, hgw, _⟩ :=
          (hnames portName).2 fun rec hrec hport => hexact ⟨rec, hrec, hport⟩
        by_cases hrow : DhcpRelayPrefixRow rows portName
        · -- only a prefix of the name is a row, and nothing is cleaned
          have hsame := (hintf portName).1 hrow
          refine Or.inl ⟨hrow, ?_, ?_⟩
          · rwa [State.serversOf, hsame, ← State.serversOf] at hhelpers
          · rwa [State.bootpGwOf, hsame, ← State.bootpGwOf] at hgw
        · -- no row is found: the helpers of the interface were collected in an array
          refine Or.inr ⟨hrow, card_filter_serversOf_lt hl ?_⟩
          rintro p n hp rfl hfull
          exact hover ⟨_, hl.mem_table hp, hrow, hfull⟩
    · intro hall
      refine ⟨s', hrun, fun portName => ⟨?_, ?_⟩⟩
      · exact fun hexact => (hintf portName).1 (dhcpRelayPrefixRow_of_exact rows hexact)
      · intro horphan
        rcases hall portName with hexact | hprefix | hfits
        · obtain ⟨rec, hrec, hport⟩ := hexact
          exact absurd hport (horphan rec hrec)
        · obtain ⟨hrow, hhelpers, hgw⟩ := hprefix
          have hsame := (hintf portName).1 hrow
          refine ⟨?_, ?_, ?_⟩
          · rwa [State.serversOf, hsame, ← State.serversOf]
          · rwa [State.bootpGwOf, hsame, ← State.bootpGwOf]
          · rw [State.serversOf, hsame, ← State.serversOf]
        · -- without a row the helpers go and the other servers stay
          obtain ⟨hservers, hgw⟩ := (hintf portName).2 hfits.1
          refine ⟨?_, hgw, ?_⟩
          · rw [hservers, Multiset.filter_filter, Multiset.filter_eq_nil]
            exact fun k _ hcase => hcase.2 hcase.1
          · rw [hservers, Multiset.filter_filter]
            exact Multiset.filter_congr fun k _ => and_self_iff

/-- The row of interface `1` keeps the helpers of interface `10`. -/
theorem dhcpRelayRowDelete_keeps_orphan :
    ∃ c : Cache, c.state.interface ['1', '0'] ≠ none ∧
      (c.state.serversOf ['1', '0']) = {(0x0100000a, 67)} ∧
      ¬CleansOrphans [⟨some ['1'], some ['v'], none, []⟩] c.state
        (udpfwdHandleDhcpRelayRowDelete c.state [⟨some ['1'], some ['v'], none, []⟩]) := by
  refine ⟨Cache.ofCalls [.create ['1', '0'], .store 0 0x0100000a 67] _ rfl (by decide),
    by decide, by decide, ?_⟩
  intro hcleans
  obtain ⟨s', hrun, hnames⟩ := hcleans
  have hhelpers := ((hnames ['1', '0']).2 (by decide)).1
  rw [← Except.ok.inj hrun] at hhelpers
  exact absurd hhelpers (by decide)

end dhcpRelay

/-! ## `udpfwd_handle_udp_bcast_forwarder_row_delete` -/

section udpBcastForwarder

variable (rows : List UdpBcastForwarderRow)

/-- The handler finds a row for the server: the row has no port, or its port is the
interface or a prefix of its name. -/
def LooselyConfigured (portName : CString) (k : ServerKey) : Prop :=
  ∃ rec ∈ rows, (∀ name, rec.srcPort = some name → name <+: portName) ∧
    rec.udpDport = k.2.toNat ∧ k.1 ∈ validAddresses rec.ipv4UcastServer

/-- A row of the interface lists the server. -/
def Configured (portName : CString) (k : ServerKey) : Prop :=
  ∃ rec ∈ rows, rec.srcPort = some portName ∧
    rec.udpDport = k.2.toNat ∧ k.1 ∈ validAddresses rec.ipv4UcastServer

theorem Configured.loosely {portName : CString} {k : ServerKey}
    (h : Configured rows portName k) : LooselyConfigured rows portName k := by
  obtain ⟨rec, hrec, hport, hdport, hid⟩ := h
  refine ⟨rec, hrec, ?_, hdport, hid⟩
  intro name hname
  rw [hport, Option.some.injEq] at hname
  exact hname ▸ List.prefix_refl portName

theorem udpBcastForwarderRowKeeps_iff {portName : CString} {k : ServerKey}
    (hk : k.2 ≠ dhcpsPort) :
    rows.any (udpBcastForwarderRowKeeps portName k) = true ↔
      LooselyConfigured rows portName k := by
  rw [List.any_eq_true]
  refine exists_congr fun rec => and_congr_right fun _ => ?_
  have hport : rec.udpDport = k.2.toNat → rec.udpDport ≠ dhcpsPort.toNat := by
    intro hdport heq
    rw [hdport, Nat.cast_inj, UInt16.toNat_inj] at heq
    exact hk heq
  unfold udpBcastForwarderRowKeeps
  cases hsrc : rec.srcPort with
  | none => simp [serverIpExists_iff]; tauto
  | some name => simp [serverIpExists_iff, strncmp_length_eq_zero_iff]; tauto

/-- The servers the handler deletes from an interface. -/
def UdpBcastForwarderOrphan (portName : CString) (k : ServerKey) : Prop :=
  k.2 ≠ dhcpsPort ∧ ¬LooselyConfigured rows portName k

instance (portName : CString) : DecidablePred (UdpBcastForwarderOrphan rows portName) :=
  fun k =>
    if hk : k.2 = dhcpsPort then isFalse fun h => h.1 hk
    else
      decidable_of_iff (rows.any (udpBcastForwarderRowKeeps portName k) = false) (by
        rw [UdpBcastForwarderOrphan, ← udpBcastForwarderRowKeeps_iff rows hk]
        simp [hk])

/-- What becomes of an interface. -/
def UdpBcastForwarderRowDeleted (e : CString × NodePtr)
    (v v' : Option UdpfwdInterfaceNode × List ServerKey) : Prop :=
  ∀ n, v.1 = some n → Cleared e.1 n.bootpGw
    ((v.2 : Multiset ServerKey).filter fun k => ¬UdpBcastForwarderOrphan rows e.1 k) v'

/-- An interface with a full array of servers without a row. -/
def UdpBcastForwarderOverrun (e : CString × NodePtr)
    (v : Option UdpfwdInterfaceNode × List ServerKey) : Prop :=
  (v.2.filter (UdpBcastForwarderOrphan rows e.1)).length = maxUdpBcastServerPerInterface

/-- The servers without a row are collected. -/
theorem collectServers_orphans {s : State} (h : Linked s) {p : NodePtr} {n : UdpfwdInterfaceNode}
    (hp : s.nodes p = some n) :
    collectServers s n (fun server =>
      if server.2 = dhcpsPort then none
      else if rows.any (udpBcastForwarderRowKeeps n.portName server) then none else some server)
      = .ok ((s.keysAt p).filter (UdpBcastForwarderOrphan rows n.portName)) := by
  -- the two tests of the loop are one: the port is not 67 and no row lists the server
  have hpick : ∀ k : ServerKey, (if k.2 = dhcpsPort then none
      else if rows.any (udpBcastForwarderRowKeeps n.portName k) then none else some k)
      = if UdpBcastForwarderOrphan rows n.portName k then some k else none := by
    intro k
    by_cases hk : k.2 = dhcpsPort
    · rw [if_pos hk, if_neg fun hcase => hcase.1 hk]
    · rw [if_neg hk]
      by_cases hrow : LooselyConfigured rows n.portName k
      · rw [if_pos ((udpBcastForwarderRowKeeps_iff rows hk).mpr hrow),
          if_neg fun hcase => hcase.2 hrow]
      · rw [if_neg (mt (udpBcastForwarderRowKeeps_iff rows hk).mp hrow), if_pos ⟨hk, hrow⟩]
  rw [funext hpick, collectServers_eq h hp, filterMap_ite_eq_filter]

theorem udpBcastForwarderRowDeleteIntf_eq {s : State} (h : CacheInv s) {e : CString × NodePtr}
    {n : UdpfwdInterfaceNode} (hp : s.nodes e.2 = some n) (hname : n.portName = e.1) :
    udpBcastForwarderRowDeleteIntf rows s e
      = removeServers e.2 ((s.keysAt e.2).filter (UdpBcastForwarderOrphan rows e.1)) s := by
  unfold udpBcastForwarderRowDeleteIntf
  show (s.node e.2 >>= _) = _
  rw [s.node_eq_ok hp, ok_bind, collectServers_orphans rows h.linked hp, ok_bind, hname]

theorem udpBcastForwarderRowDeleteIntf_step (s : State) (e : CString × NodePtr) (h : CacheInv s)
    (hlive : LiveEntry e (s.view e.2)) (hfits : ¬UdpBcastForwarderOverrun rows e (s.view e.2)) :
    ∃ s', udpBcastForwarderRowDeleteIntf rows s e = .ok s' ∧ CacheInv s' ∧
      UdpBcastForwarderRowDeleted rows e (s.view e.2) (s'.view e.2) ∧
      ∀ p, p ≠ e.2 → s'.view p = s.view p := by
  obtain ⟨⟨n, hp, hname⟩, hnonzero⟩ := hlive
  obtain ⟨s', hrun, hinv, hcleared, hothers⟩ :=
    (dropServers_eq h hp hnonzero (UdpBcastForwarderOrphan rows e.1)).2 hfits
  refine ⟨s', ?_, hinv, ?_, hothers⟩
  · rw [udpBcastForwarderRowDeleteIntf_eq rows h hp hname, hrun]
  · intro m hm
    rw [hp, Option.some.injEq] at hm
    rw [← hm, ← hname]
    rw [← hname] at hcleared
    exact hcleared

theorem udpBcastForwarderRowDeleteIntf_overrun (s : State) (e : CString × NodePtr)
    (h : CacheInv s) (hlive : LiveEntry e (s.view e.2))
    (hover : UdpBcastForwarderOverrun rows e (s.view e.2)) :
    udpBcastForwarderRowDeleteIntf rows s e = .error .scratchBounds := by
  obtain ⟨⟨n, hp, hname⟩, hnonzero⟩ := hlive
  rw [udpBcastForwarderRowDeleteIntf_eq rows h hp hname]
  exact (dropServers_eq h hp hnonzero (UdpBcastForwarderOrphan rows e.1)).1 hover

/-- A run without an overrun, interface by interface. -/
theorem udpBcastForwarderRowDelete_walk (c : Cache)
    (hfits : ∀ e ∈ c.state.intfHashTable, ¬UdpBcastForwarderOverrun rows e (c.state.view e.2)) :
    ∃ s', udpfwdHandleUdpBcastForwarderRowDelete c.state rows = .ok s' ∧ CacheInv s' ∧
      Walked c.state s' ∧
      ∀ portName,
        s'.serversOf portName = (c.state.serversOf portName).filter
          (fun k => ¬UdpBcastForwarderOrphan rows portName k) ∧
        s'.bootpGwOf portName = c.state.bootpGwOf portName := by
  have hl := c.inv.linked
  obtain ⟨s', hrun, hinv, hlocal, hothers⟩ :=
    foldlM_walk (udpBcastForwarderRowDeleteIntf_step rows) c.state.intfHashTable
      hl.table_pointers_nodup c.inv c.liveEntry hfits
  -- a node that stays keeps its name
  have hw : Walked c.state s' := by
    refine ⟨hinv.linked, ?_, hothers⟩
    intro e he m hm
    obtain ⟨n, hn, _⟩ := (c.liveEntry e he).1
    exact ((hlocal e he n hn).node m hm).1
  refine ⟨s', hrun, hinv, hw, ?_⟩
  intro portName
  cases hfind : c.state.shashFind portName with
  | none =>
    have hnone := (interface_eq_none_iff hl).mpr hfind
    simp only [State.serversOf, State.bootpGwOf, hnone, hw.interface_eq_none_of_none hl hnone]
    exact ⟨rfl, trivial⟩
  | some p =>
    obtain ⟨n, hp, rfl⟩ := (hl.shashFind_eq_some_iff portName p).mp hfind
    rw [serversOf_eq hl hp, bootpGwOf_eq hl hp]
    exact hw.of_cleared hl hp (hlocal _ (hl.mem_table hp) n hp)

/-- The cached forward-protocol servers of every interface are those that were cached and
are configured, and the helpers are as before. -/
def KeepsConfigured (s : State) (r : Except Fault State) : Prop :=
  ∃ s', r = .ok s' ∧ ∀ portName,
    (∀ k, k.2 ≠ dhcpsPort → (k ∈ s'.serversOf portName ↔
      k ∈ s.serversOf portName ∧ Configured rows portName k)) ∧
    (s'.serversOf portName).filter (·.2 = dhcpsPort)
      = (s.serversOf portName).filter (·.2 = dhcpsPort)

/-- An interface comes out right if each forward-protocol server that the handler finds a
row for is configured, and at most fifteen servers are without a row. -/
def UdpBcastForwarderRowDeletable (s : State) (portName : CString) : Prop :=
  (∀ k ∈ s.serversOf portName, k.2 ≠ dhcpsPort → LooselyConfigured rows portName k →
    Configured rows portName k) ∧
  ((s.serversOf portName).filter (UdpBcastForwarderOrphan rows portName)).card
    < maxUdpBcastServerPerInterface

theorem udpBcastForwarderRowDelete_keepsConfigured_iff (c : Cache) :
    KeepsConfigured rows c.state (udpfwdHandleUdpBcastForwarderRowDelete c.state rows) ↔
      ∀ portName, UdpBcastForwarderRowDeletable rows c.state portName := by
  have hl := c.inv.linked
  by_cases hover : ∃ e ∈ c.state.intfHashTable,
      UdpBcastForwarderOverrun rows e (c.state.view e.2)
  · -- an interface with a full array of servers without a row
    have hrun : udpfwdHandleUdpBcastForwarderRowDelete c.state rows = .error .scratchBounds :=
      foldlM_walk_error (udpBcastForwarderRowDeleteIntf_step rows)
        (udpBcastForwarderRowDeleteIntf_overrun rows) c.state.intfHashTable
        hl.table_pointers_nodup c.inv c.liveEntry hover
    obtain ⟨e, he, hfull⟩ := hover
    obtain ⟨n, hp, hname⟩ := (hl.listed e.1 e.2).mp he
    refine iff_of_false ?_ ?_
    · intro hcase
      obtain ⟨s', hrun', _⟩ := hcase
      rw [hrun] at hrun'
      exact absurd hrun' (by simp)
    · intro hall
      have hcard := (hall e.1).2
      rw [← hname, card_filter_serversOf hl hp, hname] at hcard
      exact absurd hfull (Nat.ne_of_lt hcard)
  · obtain ⟨s', hrun, _, _, hintf⟩ := udpBcastForwarderRowDelete_walk rows c
      fun e he hcase => hover ⟨e, he, hcase⟩
    constructor
    · intro hkeeps portName
      obtain ⟨s'', hrun', hnames⟩ := hkeeps
      rw [hrun, Except.ok.injEq] at hrun'
      subst hrun'
      constructor
      · -- a server that a row keeps is there afterwards, so a row is for it
        intro k hk hport hloose
        refine (((hnames portName).1 k hport).mp ?_).2
        rw [(hintf portName).1, Multiset.mem_filter]
        exact ⟨hk, fun hcase => hcase.2 hloose⟩
      · apply card_filter_serversOf_lt hl
        rintro p n hp rfl hfull
        exact hover ⟨_, hl.mem_table hp, hfull⟩
    · intro hall
      refine ⟨s', hrun, fun portName => ⟨?_, ?_⟩⟩
      · intro k hport
        rw [(hintf portName).1, Multiset.mem_filter]
        refine and_congr_right fun hk => ?_
        constructor
        · intro hkept
          by_contra hnot
          exact hkept ⟨hport, fun hloose => hnot ((hall portName).1 k hk hport hloose)⟩
        · exact fun hconf hcase => hcase.2 (hconf.loosely rows)
      · rw [(hintf portName).1, Multiset.filter_filter]
        refine Multiset.filter_congr fun k _ => and_iff_left_of_imp fun hport hcase => ?_
        exact hcase.1 hport

/-- The row of interface `1` keeps a server of interface `10`. -/
theorem udpBcastForwarderRowDelete_keeps_orphan :
    ∃ c : Cache, c.state.serversOf ['1', '0'] = {(0x0100000a, 53)} ∧
      ¬KeepsConfigured [⟨some ['1'], some ['v'], 53, ["10.0.0.1".toList]⟩] c.state
        (udpfwdHandleUdpBcastForwarderRowDelete c.state
          [⟨some ['1'], some ['v'], 53, ["10.0.0.1".toList]⟩]) := by
  refine ⟨Cache.ofCalls [.create ['1', '0'], .store 0 0x0100000a 53] _ rfl (by decide),
    by decide, ?_⟩
  intro hkeeps
  obtain ⟨s', hrun, hnames⟩ := hkeeps
  have hserver := ((hnames ['1', '0']).1 (0x0100000a, 53) (by decide)).mp (by
    rw [← Except.ok.inj hrun]
    decide)
  obtain ⟨rec, hrec, hport, _⟩ := hserver.2
  rw [List.mem_singleton] at hrec
  rw [hrec] at hport
  exact absurd hport (by decide)

end udpBcastForwarder

end Udpfwd
end IpApps
