import IpApps.Dhcpv6r.CacheRuns
import IpApps.Dhcpv6r.ConfigHandlers

/-!
# Row deletion

`dhcpv6r_handle_row_delete` looks for a row whose port name is a beginning of the name of
the interface. Without one it walks the slots of the interface and removes the server of
each, while every removal moves the last pointer into the freed slot and empties the last
one: half way through, the walk follows an empty slot. It comes to its end for at most one
server, and does nothing, not even free the node, for none.
-/

namespace IpApps
namespace Dhcpv6r

open ExceptLoops SwapErase

variable {ovs : Ovs} (rows : List DhcpRelayRow)

/-! ## One interface -/

/-- Some row's port is the interface. -/
def HasRow (portName : CString) : Prop := ∃ rec ∈ rows, rec.port = some portName

/-- Some row's port is the interface, or a beginning of its name. -/
def PrefixRow (portName : CString) : Prop :=
  ∃ rec ∈ rows, ∃ name, rec.port = some name ∧ name <+: portName

theorem PrefixRow.of_hasRow {portName : CString} (h : HasRow rows portName) :
    PrefixRow rows portName := by
  obtain ⟨rec, hrec, hport⟩ := h
  exact ⟨rec, hrec, portName, hport, List.prefix_rfl⟩

theorem rowFound_iff (portName : CString) :
    (rows.any fun rec =>
      match rec.port with
      | some name => Libc.strncmp name portName name.length = 0
      | none => false) = true ↔ PrefixRow rows portName := by
  rw [List.any_eq_true]
  apply exists_congr
  intro rec
  apply and_congr_right
  intro _
  cases rec.port with
  | none => simp
  | some name => simp [Libc.strncmp_length_eq_zero_iff]

/-- What becomes of an interface. -/
def RowDeleted (e : CString × NodePtr) (v v' : Option InterfaceNode × List ServerKey) : Prop :=
  (PrefixRow rows e.1 ∨ v.2 = [] → v' = v) ∧
    (¬(PrefixRow rows e.1 ∨ v.2 = []) → v' = (none, []))

/-- The walk over the slots of an interface follows an empty slot. -/
def SlotsRunOut (e : CString × NodePtr) (v : Option InterfaceNode × List ServerKey) : Prop :=
  ¬PrefixRow rows e.1 ∧ 2 ≤ v.2.length

/-- The table files a live node of this name. -/
def LiveEntry (e : CString × NodePtr) (v : Option InterfaceNode × List ServerKey) : Prop :=
  ∃ n, v.1 = some n ∧ n.portName = e.1

/-- One round of the walk over the slots. -/
def removeSlot (ovs : Ovs) (intf : NodePtr) (s : State) (iter : ℕ) : Except Fault State := do
  let server ← s.slotServer (← s.intfs.node intf) iter
  return (← dhcpv6rRemoveAddress ovs s intf server.ipv6Address server.egressIfName).2

theorem rowDeleteIntf_orphan {s : State} (h : CacheInv ovs s) {e : CString × NodePtr}
    {n : InterfaceNode} (hp : s.intfs.nodes e.2 = some n) (hrow : ¬PrefixRow rows e.1) :
    rowDeleteIntf ovs rows s e =
      (List.range (s.keysAt e.2).length).foldlM (removeSlot ovs e.2) s := by
  unfold rowDeleteIntf
  refine (if_neg (mt (rowFound_iff rows e.1).mp hrow)).trans ?_
  show (s.intfs.node e.2 >>= _) = _
  rw [InterfaceTable.node_eq hp, ok_bind, h.addrCount_eq hp]
  rfl

/-- A round that reaches a used slot removes the server it reads there. -/
theorem removeSlot_eq {s : State} {p : NodePtr} (h : CacheInv ovs s) {n : InterfaceNode}
    (hp : s.intfs.nodes p = some n) {i : ℕ} (hi : i < (s.keysAt p).length) :
    removeSlot ovs p s i = (do
      return (← dhcpv6rRemoveAddress ovs s p (s.keysAt p)[i].1 (s.keysAt p)[i].2).2) := by
  have hi' : i < (s.serversAt p).length := by rwa [State.keysAt, List.length_map] at hi
  unfold removeSlot
  rw [InterfaceTable.node_eq hp, ok_bind, h.slotServer_eq hp i hi', ok_bind]
  simp only [State.keysAt, List.getElem_map]
  rfl

/-- A round that is past the used slots follows an empty slot. -/
theorem removeSlot_empty {s : State} {p : NodePtr} (h : CacheInv ovs s) {n : InterfaceNode}
    (hp : s.intfs.nodes p = some n) (hne : s.keysAt p ≠ []) {i : ℕ}
    (hi : (s.keysAt p).length ≤ i) (hmax : i < maxServersPerInterface) :
    removeSlot ovs p s i = .error .nullPointer := by
  have hlen : (s.keysAt p).length = n.refs.length := by
    rw [h.length_keysAt, InterfaceTable.refsAt_eq hp]
  have hne' : n.refs ≠ [] := by
    intro hnil
    rw [hnil] at hlen
    exact hne (List.eq_nil_of_length_eq_zero hlen)
  unfold removeSlot State.slotServer
  rw [InterfaceTable.node_eq hp, ok_bind,
    (h.intfs.packed p n hp).slot_empty hne' i (hlen ▸ hi) hmax]
  rfl

/-- With two servers or more the walk does not come to its end: after half of the rounds,
half of the slots are empty. -/
theorem removeSlots_fail {s s' : State} {p : NodePtr} (h : CacheInv ovs s) {n : InterfaceNode}
    (hp : s.intfs.nodes p = some n) (hlen : 2 ≤ (s.keysAt p).length) :
    (List.range (s.keysAt p).length).foldlM (removeSlot ovs p) s ≠ .ok s' := by
  set count := (s.keysAt p).length with hcount
  have hmax : count ≤ maxServersPerInterface := h.length_keysAt_le
  intro hrun
  -- the state after `i` rounds, of which there are at most half as many as slots
  have hend := foldlM_range_rounds (P := fun i c => 2 * i ≤ count + 1 ∧ CacheInv ovs c ∧
    (∃ n, c.intfs.nodes p = some n) ∧ (c.keysAt p).length = count - i) ?_
    ⟨by omega, h, ⟨n, hp⟩, rfl⟩ hrun
  · omega
  · intro i c c' hi hround hstep
    obtain ⟨hhalf, hc, ⟨m, hm⟩, hleft⟩ := hround
    by_cases hused : i < (c.keysAt p).length
    · rw [removeSlot_eq hc hm hused] at hstep
      rcases dhcpv6rRemoveAddress_own hc hm hused with herr | hok
      · rw [herr] at hstep
        exact absurd hstep (by simp [bind, Except.bind])
      · obtain ⟨s₁, index, q, k', _, _, _, hok, hrem⟩ := hok
        rw [hok] at hstep
        obtain rfl := Except.ok.inj hstep
        obtain ⟨m', hm', _⟩ := (hrem.stays (by omega)).2 m hm
        refine ⟨by omega, hrem.inv, ⟨m', hm'⟩, ?_⟩
        rw [hrem.keys, length_swapErase]
        omega
    · have hne : c.keysAt p ≠ [] := by
        intro hnil
        rw [hnil, List.length_nil] at hleft
        omega
      rw [removeSlot_empty hc hm hne (Nat.le_of_not_lt hused) (by omega)] at hstep
      exact absurd hstep (by simp)

theorem rowDeleteIntf_step (s : State) (e : CString × NodePtr) (h : CacheInv ovs s)
    (hlive : LiveEntry e (s.view e.2)) (hfits : ¬SlotsRunOut rows e (s.view e.2)) :
    ∃ s', rowDeleteIntf ovs rows s e = .ok s' ∧ CacheInv ovs s' ∧
      RowDeleted rows e (s.view e.2) (s'.view e.2) ∧
      ∀ p, p ≠ e.2 → s'.view p = s.view p := by
  obtain ⟨n, hp, _⟩ := hlive
  have hp : s.intfs.nodes e.2 = some n := hp
  by_cases hrow : PrefixRow rows e.1
  · refine ⟨s, if_pos ((rowFound_iff rows e.1).mpr hrow), h, ⟨fun _ => rfl, ?_⟩, fun _ _ => rfl⟩
    exact fun hnot => absurd (Or.inl hrow) hnot
  · rw [rowDeleteIntf_orphan rows h hp hrow]
    by_cases hnil : s.keysAt e.2 = []
    · -- no servers: nothing happens
      rw [hnil]
      refine ⟨s, rfl, h, ⟨fun _ => rfl, ?_⟩, fun _ _ => rfl⟩
      exact fun hnot => absurd (Or.inr hnil) hnot
    · -- one server: the interface goes
      have hone : (s.keysAt e.2).length = 1 := by
        have hpos := List.length_pos_of_ne_nil hnil
        have hlt : ¬2 ≤ (s.keysAt e.2).length := fun hlen => hfits ⟨hrow, hlen⟩
        omega
      have hzero : 0 < (s.keysAt e.2).length := by omega
      have hfirst : (s.keysAt e.2).findIdx? (·.begins (s.keysAt e.2)[0]) = some 0 := by
        rw [List.findIdx?_eq_some_iff_getElem]
        exact ⟨hzero, ServerKey.begins_refl _, fun j hj => absurd hj (Nat.not_lt_zero j)⟩
      obtain ⟨_, q, hq, hkey, _⟩ := dhcpv6rRemoveServerRefEntry_eq h hp hfirst
      obtain ⟨s', hrun, hrem⟩ := dhcpv6rRemoveAddress_eq h hp hfirst hq hkey fun _ => rfl
      have hkeys : s'.keysAt e.2 = [] := by
        apply List.eq_nil_of_length_eq_zero
        rw [hrem.keys, length_swapErase, hone]
      refine ⟨s', ?_, hrem.inv, ⟨?_, ?_⟩, ?_⟩
      · rw [hone]
        show (removeSlot ovs e.2 s 0 >>= pure) = _
        rw [removeSlot_eq h hp hzero, hrun]
        rfl
      · rintro (hcase | hcase)
        · exact absurd hcase hrow
        · exact absurd hcase hnil
      · intro _
        exact Prod.ext (hrem.goes hone).1 hkeys
      · intro p hne
        exact Prod.ext (hrem.others p hne).1 (hrem.others p hne).2

theorem rowDeleteIntf_runsOut (s : State) (e : CString × NodePtr) (h : CacheInv ovs s)
    (hlive : LiveEntry e (s.view e.2)) (hout : SlotsRunOut rows e (s.view e.2)) :
    ∃ err, rowDeleteIntf ovs rows s e = .error err := by
  obtain ⟨n, hp, _⟩ := hlive
  obtain ⟨hrow, hlen⟩ := hout
  rw [rowDeleteIntf_orphan rows h hp hrow]
  cases hrun : (List.range (s.keysAt e.2).length).foldlM (removeSlot ovs e.2) s with
  | error err => exact ⟨err, rfl⟩
  | ok s' => exact absurd hrun (removeSlots_fail h hp hlen)

/-! ## All interfaces -/

/-- What a deleted row asks for: no invalid access, the interfaces with a row are as
before, and the others are gone with their servers. -/
def CleansOrphans (s : State) (r : Except Fault State) : Prop :=
  ∃ s', r = .ok s' ∧ ∀ portName,
    (HasRow rows portName → s'.interface portName = s.interface portName) ∧
    (¬HasRow rows portName → s'.interface portName = none)

theorem Cache.liveEntry (c : Cache ovs) :
    ∀ e ∈ c.state.intfs.intfHashTable, LiveEntry e (c.state.view e.2) :=
  fun e he => (c.inv.intfs.listed e.1 e.2).mp he

/-- A run in which no walk runs out of slots, interface by interface. -/
theorem rowDelete_interface (c : Cache ovs)
    (hfits : ∀ e ∈ c.state.intfs.intfHashTable, ¬SlotsRunOut rows e (c.state.view e.2)) :
    ∃ s', dhcpv6rHandleRowDelete ovs c.state rows = .ok s' ∧
      (∀ portName, c.state.interface portName = none → s'.interface portName = none) ∧
      ∀ portName n servers, c.state.interface portName = some (n, servers) →
        (PrefixRow rows portName ∨ servers = [] →
          s'.interface portName = some (n, servers)) ∧
        (¬(PrefixRow rows portName ∨ servers = []) → s'.interface portName = none) := by
  have hinv := c.inv
  obtain ⟨s', hrun, hinv', hlocal, hothers⟩ := foldlM_walk (rowDeleteIntf_step rows)
    c.state.intfs.intfHashTable hinv.intfs.pointers_nodup hinv c.liveEntry hfits
  -- a node that is left is as it was
  have hleft : ∀ p n, s'.intfs.nodes p = some n → s'.view p = c.state.view p := by
    intro p n hn
    by_cases hp : p ∈ c.state.intfs.intfHashTable.map Prod.snd
    · obtain ⟨e, he, rfl⟩ := List.mem_map.mp hp
      obtain ⟨hkept, hgone⟩ := hlocal e he
      by_cases hcase : PrefixRow rows e.1 ∨ (c.state.view e.2).2 = []
      · exact hkept hcase
      · have hnone := congrArg Prod.fst (hgone hcase)
        rw [show (s'.view e.2).1 = some n from hn] at hnone
        exact absurd hnone (by simp)
    · exact hothers p hp
  refine ⟨s', hrun, ?_, ?_⟩
  · intro portName hnone
    rw [hinv'.interface_eq_none_iff]
    intro p n hn
    apply hinv.interface_eq_none_iff.mp hnone p
    rw [← show s'.intfs.nodes p = c.state.intfs.nodes p from congrArg Prod.fst (hleft p n hn), hn]
  · intro portName n servers hintf
    obtain ⟨p, hp, hname, hks⟩ := hinv.interface_eq_some_iff.mp hintf
    obtain ⟨hkept, hgone⟩ := hlocal (portName, p) ((hinv.intfs.listed _ _).mpr ⟨n, hp, hname⟩)
    dsimp only [State.view] at hkept hgone
    rw [hks] at hkept hgone
    constructor
    · intro hcase
      have hview := hkept hcase
      rw [hinv'.interface_eq_some_iff]
      exact ⟨p, (congrArg Prod.fst hview).trans hp, hname, congrArg Prod.snd hview⟩
    · intro hcase
      have hnode : s'.intfs.nodes p = none := congrArg Prod.fst (hgone hcase)
      rw [hinv'.interface_eq_none_iff]
      intro p' n' hn' hname'
      -- it would be the node of the same name before
      have hsame : c.state.intfs.nodes p' = some n' := by
        rw [← show s'.intfs.nodes p' = c.state.intfs.nodes p' from
          congrArg Prod.fst (hleft p' n' hn'), hn']
      have hmem := hinv.intfs.mem_table hsame
      rw [hname', ← hname] at hmem
      have hpp := List.inj_on_of_nodup_map hinv.intfs.names hmem (hinv.intfs.mem_table hp) rfl
      rw [show p' = p from congrArg Prod.snd hpp, hnode] at hn'
      exact absurd hn' (by simp)

/-- The deletion of rows comes out right exactly if every interface has a row, or is not
even named like one and has a single server. -/
theorem rowDelete_cleansOrphans_iff (c : Cache ovs) :
    CleansOrphans rows c.state (dhcpv6rHandleRowDelete ovs c.state rows) ↔
      ∀ portName n servers, c.state.interface portName = some (n, servers) →
        HasRow rows portName ∨ (¬PrefixRow rows portName ∧ servers.length = 1) := by
  have hinv := c.inv
  by_cases hout : ∃ e ∈ c.state.intfs.intfHashTable, SlotsRunOut rows e (c.state.view e.2)
  · -- the walk over some interface follows an empty slot
    have hfail : ∀ s e, CacheInv ovs s → LiveEntry e (s.view e.2) →
        SlotsRunOut rows e (s.view e.2) → ∃ err, rowDeleteIntf ovs rows s e = .error err ∧ True :=
      fun s e h hlive hcase =>
        (rowDeleteIntf_runsOut rows s e h hlive hcase).imp fun _ herr => ⟨herr, trivial⟩
    obtain ⟨err, hrun, _⟩ := foldlM_walk_fails (rowDeleteIntf_step rows) hfail
      c.state.intfs.intfHashTable hinv.intfs.pointers_nodup hinv c.liveEntry hout
    obtain ⟨e, he, hrow, hlen⟩ := hout
    obtain ⟨n, hp, hname⟩ := (hinv.intfs.listed e.1 e.2).mp he
    apply iff_of_false
    · intro hcleans
      obtain ⟨s', hrun', _⟩ := hcleans
      rw [dhcpv6rHandleRowDelete, hrun] at hrun'
      exact absurd hrun' (by simp)
    · intro hall
      rcases hall e.1 n _ (hname ▸ hinv.interface_eq hp) with hexact | ⟨_, hone⟩
      · exact hrow (PrefixRow.of_hasRow rows hexact)
      · have hlen : 2 ≤ (c.state.keysAt e.2).length := hlen
        omega
  · obtain ⟨s', hrun, habsent, hpresent⟩ :=
      rowDelete_interface rows c fun e he hcase => hout ⟨e, he, hcase⟩
    constructor
    · intro hcleans portName n servers hintf
      obtain ⟨s'', hrun', hnames⟩ := hcleans
      rw [hrun] at hrun'
      obtain rfl := Except.ok.inj hrun'
      by_cases hexact : HasRow rows portName
      · exact Or.inl hexact
      · -- the interface is gone: it had servers and no row with a beginning of its name
        have hgone := (hnames portName).2 hexact
        obtain ⟨hkept, _⟩ := hpresent portName n servers hintf
        have hcase : ¬(PrefixRow rows portName ∨ servers = []) := by
          intro hcase
          rw [hkept hcase] at hgone
          exact absurd hgone (by simp)
        obtain ⟨hrow, hne⟩ := not_or.mp hcase
        obtain ⟨p, hp, hname, rfl⟩ := hinv.interface_eq_some_iff.mp hintf
        have hpos := List.length_pos_of_ne_nil hne
        have hlt : ¬2 ≤ (c.state.keysAt p).length := fun hlen =>
          hout ⟨(portName, p), (hinv.intfs.listed _ _).mpr ⟨n, hp, hname⟩, hrow, hlen⟩
        exact Or.inr ⟨hrow, by omega⟩
    · -- the interfaces that have a row or nothing to lose stay as they are
      intro hall
      refine ⟨s', hrun, fun portName => ?_⟩
      cases hintf : c.state.interface portName with
      | none =>
        have hnone := habsent portName hintf
        exact ⟨fun _ => hnone, fun _ => hnone⟩
      | some intf =>
        obtain ⟨hkept, hgone⟩ := hpresent portName intf.1 intf.2 hintf
        constructor
        · exact fun hexact => hkept (Or.inl (PrefixRow.of_hasRow rows hexact))
        · intro hexact
          rcases hall portName intf.1 intf.2 hintf with hcase | ⟨hrow, hone⟩
          · exact absurd hcase hexact
          · apply hgone
            rintro (hcase | hnil)
            · exact hrow hcase
            · rw [hnil] at hone
              exact absurd hone (by simp)

/-- The second server of an interface without a row is looked for in the slot that the
removal of the first has emptied. -/
theorem rowDelete_follows_empty_slot :
    ∃ c : Cache exampleOvs,
      c.state.keysAt 0 = [("2001:db8::1".toList, none), ("2001:db8::2".toList, none)] ∧
      dhcpv6rHandleRowDelete exampleOvs c.state [] = .error .nullPointer ∧
      ¬CleansOrphans [] c.state (dhcpv6rHandleRowDelete exampleOvs c.state []) := by
  refine ⟨Cache.ofCalls [.create "1".toList, .store 0 "2001:db8::1".toList none,
    .store 0 "2001:db8::2".toList none] _ rfl, by decide, rfl, ?_⟩
  intro hcleans
  obtain ⟨s', hrun, _⟩ := hcleans
  exact absurd hrun nofun

end Dhcpv6r
end IpApps
