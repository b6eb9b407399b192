import IpApps.Dhcpv6r.ConfigChange
import IpApps.Dhcpv6r.RowDelete
import IpApps.Lib.Outcomes
import IpApps.Udpfwd.ConfigHandlers
import Mathlib.Algebra.Group.Action.Defs
import Mathlib.Algebra.Order.BigOperators.Group.List
import Mathlib.Data.Finset.Card

/-!
# Reconfigurations of the DHCPv6 relay

`dhcpv6r_reconfigure` deletes the interfaces without a row and then visits the changed rows. The
handlers read through pointers that they have freed, slots that they have emptied and elements
behind the end of a row. `servers_of_polls` says that nothing else goes wrong: as long as no
address is a beginning of another one, a run over any sequence of tables either stops at one of
these accesses or leaves a consistent cache of servers that were listed for their interfaces.
-/

namespace IpApps
namespace Dhcpv6r

open ExceptLoops Outcomes SwapErase

/-! ## The functions of the daemon -/

/-- The table `DHCP_Relay` at a call, and whether its column `ipv6_ucast_server` has been
modified. -/
structure Poll where
  table : Udpfwd.IdlTable DhcpRelayRow
  ucastServerModified : Bool

/-- The rows of the table. -/
def Poll.rows (poll : Poll) : List DhcpRelayRow := poll.table.rows.map (·.row)

/-- `dhcpv6r_server_config_update`. -/
def dhcpv6rServerConfigUpdate (ovs : Ovs) (s : State) (poll : Poll) : Except Fault State := do
  if poll.table.rows.isEmpty then
    return ← dhcpv6rHandleRowDelete ovs s poll.rows
  if !poll.table.anyInserted && !poll.table.anyDeleted && !poll.table.anyModified then
    return s
  let s ← if poll.table.anyDeleted then dhcpv6rHandleRowDelete ovs s poll.rows else pure s
  poll.table.rows.foldlM (fun s rec =>
    if rec.inserted || rec.modified then
      dhcpv6rHandleConfigChange ovs s rec.row poll.ucastServerModified
    else pure s) s

/-- `dhcpv6r_reconfigure`. What it does with the global configuration is not compiled. -/
def dhcpv6rReconfigure (ovs : Ovs) (s : State) (poll : Poll) : Except Fault State :=
  dhcpv6rServerConfigUpdate ovs s poll

/-- The daemon from its start, at one call after the other. -/
def runPolls (ovs : Ovs) (polls : List Poll) : Except Fault State :=
  polls.foldlM (dhcpv6rReconfigure ovs) State.empty

/-! ## Addresses that were listed -/

/-- The interface `name` has a row with the address `a` in one of the tables. -/
def SeenIn (polls : List Poll) (name a : CString) : Prop :=
  ∃ poll ∈ polls, ∃ rec ∈ poll.rows, rec.port = some name ∧ a ∈ rec.ipv6UcastServer

/-- No address is a beginning of another one. -/
def Apart (seen : CString → CString → Prop) : Prop :=
  ∀ name name' a b, seen name a → seen name' b → a <+: b → a = b

/-- All addresses of a sequence of tables. -/
def addresses (polls : List Poll) : List CString :=
  polls.flatMap fun poll => poll.rows.flatMap (·.ipv6UcastServer)

theorem apart_of_addresses {polls : List Poll}
    (h : ∀ a ∈ addresses polls, ∀ b ∈ addresses polls, a <+: b → a = b) :
    Apart (SeenIn polls) := by
  have hmem : ∀ name a, SeenIn polls name a → a ∈ addresses polls := by
    rintro name a ⟨poll, hpoll, rec, hrec, -, ha⟩
    exact List.mem_flatMap.mpr ⟨poll, hpoll, List.mem_flatMap.mpr ⟨rec, hrec, ha⟩⟩
  intro name name' a b ha hb
  exact h a (hmem name a ha) b (hmem name' b hb)

/-- The accesses at which a run may stop. -/
def Fault.MayStop : Fault → Prop
  | .freedNode | .nullPointer | .rowBounds => True
  | _ => False

/-- A cache in order, at the interfaces `ports`, of addresses that were listed there. -/
structure Listed (ovs : Ovs) (ports : Finset CString) (seen : CString → CString → Prop)
    (s : State) : Prop where
  inv : CacheInv ovs s
  ports : ∀ p n, s.intfs.nodes p = some n → n.portName ∈ ports
  servers : ∀ p n, s.intfs.nodes p = some n → ∀ k ∈ s.keysAt p,
    ∃ a, k = ucast a ∧ seen n.portName a
  once : ∀ p, (s.keysAt p).Nodup

section listed

variable {ovs : Ovs} {ports : Finset CString} {seen : CString → CString → Prop} {s s' : State}
  {p : NodePtr} {n : InterfaceNode} {portName : CString} {rec : DhcpRelayRow}

theorem Listed.empty : Listed ovs ports seen State.empty := by
  refine ⟨CacheInv.empty ovs, fun p n hp => ?_, fun p n hp => ?_, fun p => List.nodup_nil⟩
  · exact absurd hp (by simp [State.empty])
  · exact absurd hp (by simp [State.empty])

/-- An entry of the map has a slot. -/
theorem CacheInv.exists_slot (h : CacheInv ovs s) {q : ServerPtr} {k : ServerKey}
    (hq : s.servers.keyOf q = some k) : ∃ p, q ∈ s.intfs.refsAt p := by
  have hpos := h.servers.positive q k hq
  rw [h.counted, InterfaceTable.total] at hpos
  by_contra hnone
  rw [not_exists] at hnone
  have hzero : (s.intfs.intfHashTable.map fun e => (s.intfs.refsAt e.2).count q).sum = 0 := by
    rw [List.sum_eq_zero_iff_forall_eq_nat]
    intro c hc
    obtain ⟨e, -, rfl⟩ := List.mem_map.mp hc
    exact List.count_eq_zero_of_not_mem (hnone e.2)
  omega

/-- The server of a slot is one of its interface. -/
theorem State.key_mem {q : ServerPtr} {k : ServerKey}
    (hq : q ∈ s.intfs.refsAt p) (hk : s.servers.keyOf q = some k) :
    ∃ n, s.intfs.nodes p = some n ∧ k ∈ s.keysAt p := by
  cases hp : s.intfs.nodes p with
  | none =>
    rw [InterfaceTable.refsAt_eq_nil hp] at hq
    exact absurd hq List.not_mem_nil
  | some n =>
    refine ⟨n, rfl, ?_⟩
    rw [State.keysAt_eq]
    exact List.mem_filterMap.mpr ⟨q, hq, hk⟩

/-- A change of one interface. -/
theorem Listed.touched (h : Listed ovs ports seen s) (ht : Touches ovs s s' p portName)
    (hport : portName ∈ ports) (hservers : ∀ k ∈ s'.keysAt p, ∃ a, k = ucast a ∧ seen portName a)
    (honce : (s'.keysAt p).Nodup) : Listed ovs ports seen s' := by
  refine ⟨ht.inv, fun p' m hm => ?_, fun p' m hm => ?_, fun p' => ?_⟩
  · by_cases hpp : p' = p
    · subst hpp
      rw [ht.name m hm]
      exact hport
    · rw [(ht.others p' hpp).1] at hm
      exact h.ports p' m hm
  · by_cases hpp : p' = p
    · subst hpp
      rw [ht.name m hm]
      exact hservers
    · rw [(ht.others p' hpp).1] at hm
      rw [(ht.others p' hpp).2]
      exact h.servers p' m hm
  · by_cases hpp : p' = p
    · subst hpp
      exact honce
    · rw [(ht.others p' hpp).2]
      exact h.once p'

/-- An interface has one slot at most for an entry. -/
theorem Listed.refsAt_nodup (h : Listed ovs ports seen s) (p : NodePtr) :
    (s.intfs.refsAt p).Nodup := by
  have hsome : ∀ q ∈ s.intfs.refsAt p, ∃ k, s.servers.keyOf q = some k := by
    intro q hq
    obtain ⟨r, hr⟩ := h.inv.live hq
    exact ⟨r.key, by rw [ServerMap.keyOf, hr]; rfl⟩
  have hmap := map_eq_map_some_filterMap hsome
  rw [← State.keysAt_eq] at hmap
  apply List.Nodup.of_map s.servers.keyOf
  rw [hmap]
  exact (h.once p).map (Option.some_injective _)

/-- An entry that an interface has no slot for is counted at the other interfaces only. -/
theorem Listed.refs_lt (h : Listed ovs ports seen s) (hp : s.intfs.nodes p = some n)
    {q : ServerPtr} (hq : q ∉ s.intfs.refsAt p) : s.servers.refs q < ports.card := by
  have hmem := h.inv.intfs.mem_table hp
  have hnames : (s.intfs.intfHashTable.map Prod.fst).toFinset ⊆ ports := by
    intro name hname
    obtain ⟨e, he, rfl⟩ := List.mem_map.mp (List.mem_toFinset.mp hname)
    obtain ⟨m, hm, hport⟩ := (h.inv.intfs.listed e.1 e.2).mp he
    exact hport ▸ h.ports e.2 m hm
  have hcard := Finset.card_le_card hnames
  rw [List.toFinset_card_of_nodup h.inv.intfs.names, List.length_map] at hcard
  -- every other interface counts at most one
  have hsum := sum_map_erase hmem fun e => (s.intfs.refsAt e.2).count q
  rw [List.count_eq_zero_of_not_mem hq] at hsum
  have hle := List.sum_le_card_nsmul
    ((s.intfs.intfHashTable.erase (n.portName, p)).map fun e => (s.intfs.refsAt e.2).count q) 1 (by
      intro c hc
      obtain ⟨e, -, rfl⟩ := List.mem_map.mp hc
      exact List.nodup_iff_count_le_one.mp (h.refsAt_nodup e.2) q)
  rw [List.length_map, List.length_erase_of_mem hmem, smul_eq_mul, mul_one] at hle
  have hpos := List.length_pos_of_mem hmem
  rw [h.inv.counted, InterfaceTable.total, ← hsum]
  omega

/-! ## Adding addresses -/

/-- An address that is stored gets a slot with an entry of its own. -/
theorem Listed.stored (h : Listed ovs ports seen s) (hfew : ports.card ≤ 65535)
    (hapart : Apart seen) (hp : s.intfs.nodes p = some n) {a : CString}
    (ha : seen n.portName a) (hnew : ∀ x, ucast x ∈ s.keysAt p → ¬x <+: a) :
    ∃ stored s', dhcpv6rStoreAddress ovs s p a none = .ok (stored, s') ∧
      Listed ovs ports seen s' ∧ ∃ n', s'.intfs.nodes p = some n' ∧ n'.portName = n.portName := by
  by_cases hroom : (s.keysAt p).length < maxServersPerInterface
  · obtain ⟨q, s', k, hrun, hstores⟩ := dhcpv6rStoreAddress_eq h.inv hp hroom (ucast a)
    -- an entry of the map that the address is a beginning of is its own
    have hk : k = ucast a := by
      rcases hstores.source with hsource | ⟨-, hk⟩
      · obtain ⟨p', hq⟩ := h.inv.exists_slot hsource
        obtain ⟨m, hm, hkey⟩ := State.key_mem hq hsource
        obtain ⟨b, rfl, hb⟩ := h.servers p' m hm k hkey
        rw [hapart _ _ a b ha hb ((ucast_begins_iff a b).mp hstores.begins)]
      · exact hk
    subst hk
    have hnot : ucast a ∉ s.keysAt p := fun hmem => hnew a hmem List.prefix_rfl
    have hq : q ∉ s.intfs.refsAt p := by
      intro hq
      rcases hstores.source with hsource | ⟨hnone, -⟩
      · obtain ⟨-, -, hkey⟩ := State.key_mem hq hsource
        exact hnot hkey
      · obtain ⟨r, hr⟩ := h.inv.live hq
        rw [ServerMap.keyOf, hr] at hnone
        exact absurd hnone (by simp)
    have hlt : s.servers.refs q < 65535 := Nat.lt_of_lt_of_le (h.refs_lt hp hq) hfew
    obtain ⟨n', hp', hname⟩ := hstores.node n hp
    have htouches : Touches ovs s s' p n.portName := by
      refine ⟨hstores.inv hlt, fun m hm => ?_, hstores.others⟩
      rw [hp', Option.some.injEq] at hm
      rw [← hm, hname]
    refine ⟨true, s', hrun, h.touched htouches (h.ports p n hp) ?_ ?_, n', hp', hname⟩
    · intro k hk
      rw [hstores.keys, List.mem_append, List.mem_singleton] at hk
      rcases hk with hk | rfl
      · exact h.servers p n hp k hk
      · exact ⟨a, rfl, ha⟩
    · rw [hstores.keys]
      exact List.Nodup.append (h.once p) (List.nodup_singleton _)
        (List.disjoint_singleton.mpr hnot)
  · refine ⟨false, s, dhcpv6rStoreAddress_full hp ?_ (ucast a), h, n, hp, rfl⟩
    rw [h.inv.addrCount_eq hp]
    omega

/-- The additions find their addresses, or store them. -/
theorem Listed.added (h : Listed ovs ports seen s) (hfew : ports.card ≤ 65535)
    (hapart : Apart seen) (hp : s.intfs.nodes p = some n)
    (hrow : ∀ a ∈ rec.ipv6UcastServer, seen n.portName a) :
    ∃ s', dhcpv6rGetUcastEntriesAdded ovs s p rec = .ok s' ∧ Listed ovs ports seen s' ∧
      ∃ n', s'.intfs.nodes p = some n' ∧ n'.portName = n.portName := by
  refine foldlM_range_exists (P := fun _ s => Listed ovs ports seen s ∧
    ∃ n', s.intfs.nodes p = some n' ∧ n'.portName = n.portName) ?_ ⟨h, n, hp, rfl⟩
  intro i c hi hc
  obtain ⟨hc, m, hm, hname⟩ := hc
  set a := rec.ipv6UcastServer[i] with ha
  have hget : rec.ucastServer i = .ok a := by
    rw [DhcpRelayRow.ucastServer, List.getElem?_eq_getElem hi]
  -- the servers of the interface are their addresses
  have hkeys : c.keysAt p = ((c.keysAt p).map Prod.fst).map ucast := by
    have hid : (c.keysAt p).map (ucast ∘ Prod.fst) = (c.keysAt p).map id := by
      refine List.map_congr_left fun k hk => ?_
      obtain ⟨b, rfl, -⟩ := hc.servers p m hm k hk
      rfl
    rw [List.map_map, hid, List.map_id]
  rw [InterfaceTable.node_eq hm, ok_bind, findHeld_eq hc.inv hm hget hkeys, ok_bind, hget, ok_bind]
  by_cases hfound : ∃ x ∈ (c.keysAt p).map Prod.fst, x <+: a
  · rw [decide_eq_true hfound]
    exact ⟨c, rfl, hc, m, hm, hname⟩
  · rw [decide_eq_false hfound]
    obtain ⟨stored, c', hrun, hc', m', hm', hname'⟩ :=
      hc.stored hfew hapart hm (hname ▸ hrow a (List.getElem_mem hi)) fun x hx hxa =>
        hfound ⟨x, List.mem_map_of_mem hx, hxa⟩
    exact ⟨c', by rw [hrun]; rfl, hc', m', hm', hname'.trans hname⟩

/-! ## Removing addresses -/

/-- The removal of the server in a slot closes this slot. -/
theorem Listed.removed (h : Listed ovs ports seen s) (hapart : Apart seen)
    (hp : s.intfs.nodes p = some n) {i : ℕ} (hi : i < (s.keysAt p).length) :
    ∃ s', dhcpv6rRemoveAddress ovs s p (s.keysAt p)[i].1 (s.keysAt p)[i].2 = .ok (true, s') ∧
      Listed ovs ports seen s' ∧ s'.keysAt p = swapErase (s.keysAt p) i ∧
      ((s.keysAt p).length = 1 → s'.intfs.nodes p = none) ∧
      ((s.keysAt p).length ≠ 1 →
        ∃ n', s'.intfs.nodes p = some n' ∧ n'.portName = n.portName) := by
  -- a server before it that is a beginning of it would be the same one
  have hfind : (s.keysAt p).findIdx? (·.begins (s.keysAt p)[i]) = some i := by
    refine List.findIdx?_eq_some_iff_getElem.mpr ⟨hi, ServerKey.begins_refl _, fun j hj => ?_⟩
    intro hbegins
    have hj' := Nat.lt_trans hj hi
    obtain ⟨a, hka, ha⟩ := h.servers p n hp _ (List.getElem_mem hi)
    obtain ⟨b, hkb, hb⟩ := h.servers p n hp _ (List.getElem_mem hj')
    rw [hka, hkb, ucast_begins_iff] at hbegins
    have hsame : (s.keysAt p)[j] = (s.keysAt p)[i] := by
      rw [hka, hkb, hapart _ _ b a hb ha hbegins]
    exact absurd ((h.once p).getElem_inj_iff.mp hsame) (Nat.ne_of_lt hj)
  obtain ⟨_, q, hq, hkey, _⟩ := dhcpv6rRemoveServerRefEntry_eq h.inv hp hfind
  obtain ⟨s', hrun, hrem⟩ := dhcpv6rRemoveAddress_eq h.inv hp hfind hq hkey fun _ => rfl
  have htouches : Touches ovs s s' p n.portName := by
    refine ⟨hrem.inv, fun m hm => ?_, hrem.others⟩
    by_cases hone : (s.keysAt p).length = 1
    · rw [(hrem.goes hone).1] at hm
      exact absurd hm (by simp)
    · obtain ⟨m', hm', hname⟩ := (hrem.stays hone).2 n hp
      rw [hm', Option.some.injEq] at hm
      rw [← hm, hname]
  have honce : (s'.keysAt p).Nodup := by
    rw [hrem.keys]
    exact nodup_swapErase (h.once p) hi
  refine ⟨s', hrun, h.touched htouches (h.ports p n hp) ?_ honce, hrem.keys,
    fun hone => (hrem.goes hone).1, fun hone => (hrem.stays hone).2 n hp⟩
  intro k hk
  rw [hrem.keys] at hk
  exact h.servers p n hp k (mem_of_mem_swapErase hk)

/-- A round of the flush compares with an element of the row, or reads behind its end. -/
theorem meets_compared (ip : CString) (t : ℕ) :
    Meets Fault.MayStop (fun _ => True)
      ((List.range rec.ipv6UcastServer.length).anyM fun _ => do
        return compareServer ip (← rec.ucastServer t) none none) := by
  by_cases hnil : rec.ipv6UcastServer = []
  · rw [hnil]
    exact trivial
  · have hne : List.range rec.ipv6UcastServer.length ≠ [] := by
      rw [ne_eq, List.range_eq_nil, List.length_eq_zero_iff]
      exact hnil
    rw [anyM_const hne]
    unfold DhcpRelayRow.ucastServer
    cases rec.ipv6UcastServer[t]? with
    | none => exact trivial
    | some b => exact trivial

theorem Listed.flushed (h : Listed ovs ports seen s) (hapart : Apart seen)
    (hp : s.intfs.nodes p = some n) {rounds t : ℕ} (hrounds : rounds + t = 256)
    (ht : t ≤ maxServersPerInterface) :
    Meets Fault.MayStop (Listed ovs ports seen) (flushFrom ovs p rec rounds t s) := by
  have hmax : maxServersPerInterface = 8 := rfl
  induction rounds generalizing s n t with
  | zero => omega
  | succ rounds ih =>
    by_cases hlt : t < (s.keysAt p).length
    · have hle := h.inv.length_keysAt_le (p := p)
      obtain ⟨a, hka, -⟩ := h.servers p n hp _ (List.getElem_mem hlt)
      rw [flushFrom_round h.inv hp (List.getElem?_eq_getElem hlt)]
      refine (meets_compared _ t).bind fun found _ => ?_
      cases found with
      | true => exact ih h hp (by omega) (by omega)
      | false =>
        obtain ⟨s', hrun, hlisted, -, hgoes, hstays⟩ := h.removed hapart hp hlt
        have hrun' : dhcpv6rRemoveAddress ovs s p (s.keysAt p)[t].1 none = .ok (true, s') := by
          rw [← hrun, hka]
          rfl
        show Meets _ _ (dhcpv6rRemoveAddress ovs s p (s.keysAt p)[t].1 none >>= fun r =>
          flushFrom ovs p rec rounds (t + 1) r.2)
        rw [hrun']
        show Meets _ _ (flushFrom ovs p rec rounds (t + 1) s')
        by_cases hone : (s.keysAt p).length = 1
        · -- the next round reads the node that went with its last server
          obtain ⟨rest, rfl⟩ : ∃ rest, rounds = rest + 1 := ⟨rounds - 1, by omega⟩
          rw [flushFrom, InterfaceTable.node, hgoes hone]
          exact trivial
        · obtain ⟨n', hp', -⟩ := hstays hone
          exact ih hlisted hp' (by omega) (by omega)
    · rw [flushFrom_end h.inv hp (Nat.le_of_not_lt hlt)]
      exact h

/-- The walk over an interface without a row. -/
theorem Listed.rowDeleted (h : Listed ovs ports seen s) (hapart : Apart seen)
    (rows : List DhcpRelayRow) (e : CString × NodePtr) :
    Meets Fault.MayStop (Listed ovs ports seen) (rowDeleteIntf ovs rows s e) := by
  unfold rowDeleteIntf
  dsimp only
  refine Meets.ite (fun _ => h) fun _ => ?_
  cases hp : s.intfs.nodes e.2 with
  | none =>
    rw [InterfaceTable.node, hp]
    exact trivial
  | some n =>
    rw [InterfaceTable.node_eq hp, ok_bind, h.inv.addrCount_eq hp]
    show Meets _ _ ((List.range (s.keysAt e.2).length).foldlM (removeSlot ovs e.2) s)
    have hle := h.inv.length_keysAt_le (p := e.2)
    by_cases hnil : s.keysAt e.2 = []
    · rw [hnil]
      exact h
    · -- the node has servers as long as it is there
      have hloop : Meets Fault.MayStop (fun s => Listed ovs ports seen s ∧
          ∀ m, s.intfs.nodes e.2 = some m → s.keysAt e.2 ≠ [])
          ((List.range (s.keysAt e.2).length).foldlM (removeSlot ovs e.2) s) := ?_
      · exact hloop.mono fun s hs => hs.1
      refine Meets.foldlM ?_ ⟨h, fun m hm => hnil⟩
      rintro c i ⟨hc, hservers⟩ hi
      cases hm : c.intfs.nodes e.2 with
      | none =>
        unfold removeSlot
        rw [InterfaceTable.node, hm]
        exact trivial
      | some m =>
        by_cases hused : i < (c.keysAt e.2).length
        · obtain ⟨c', hrun, hlisted, hkeys, hgoes, -⟩ := hc.removed hapart hm hused
          rw [removeSlot_eq hc.inv hm hused, hrun]
          refine ⟨hlisted, fun m' hm' => List.ne_nil_of_length_pos ?_⟩
          have hone : (c.keysAt e.2).length ≠ 1 := by
            intro hone
            rw [hgoes hone] at hm'
            exact absurd hm' (by simp)
          show 0 < (c'.keysAt e.2).length
          rw [hkeys, length_swapErase]
          omega
        · have hlt := List.mem_range.mp hi
          rw [removeSlot_empty hc.inv hm (hservers m hm) (Nat.le_of_not_lt hused)
            (Nat.lt_of_lt_of_le hlt hle)]
          exact trivial

/-! ## Calls -/

/-- The servers of an interface, by its name. -/
theorem Listed.heldBy (h : Listed ovs ports seen s) (name : CString) :
    (s.heldBy name).Nodup ∧ ∀ k ∈ s.heldBy name, ∃ a, k = ucast a ∧ seen name a := by
  cases hintf : s.interface name with
  | none =>
    rw [State.heldBy, hintf]
    exact ⟨List.nodup_nil, fun k hk => absurd hk List.not_mem_nil⟩
  | some intf =>
    obtain ⟨p, hp, hname, hks⟩ := h.inv.interface_eq_some_iff.mp hintf
    rw [State.heldBy, hintf, Option.map_some, Option.getD_some, ← hks, ← hname]
    exact ⟨h.once p, h.servers p intf.1 hp⟩

/-- The node of the interface is looked up, and created if there is none. -/
theorem Listed.looked (h : Listed ovs ports seen s) {s₁ : State}
    (ht : Touches ovs s s₁ p portName) (hport : portName ∈ ports)
    (hkeys : s₁.keysAt p = s.heldBy portName) : Listed ovs ports seen s₁ := by
  obtain ⟨honce, hservers⟩ := h.heldBy portName
  refine h.touched ht hport ?_ ?_
  · rw [hkeys]
    exact hservers
  · rw [hkeys]
    exact honce

/-- Without a change of the column the handler does not go further than this. -/
theorem dhcpv6rHandleConfigChange_unmodified (h : CacheInv ovs s) {vrf : CString}
    (hport : rec.port = some portName) (hvrf : rec.vrf = some vrf) :
    ∃ p s₁ n, s₁.intfs.nodes p = some n ∧ Touches ovs s s₁ p portName ∧
      s₁.keysAt p = s.heldBy portName ∧
      (∀ m, s.intfs.nodes p = some m → m.portName = portName) ∧
      dhcpv6rHandleConfigChange ovs s rec false = .ok s₁ := by
  unfold dhcpv6rHandleConfigChange
  rw [hport, hvrf]
  cases hfind : s.intfs.shashFind portName with
  | some p =>
    obtain ⟨n, hp, rfl⟩ := (h.intfs.shashFind_eq_some_iff portName p).mp hfind
    have htouches := Touches.refl h hp
    refine ⟨p, s, n, hp, htouches, (h.heldBy_eq hp).symm, htouches.name, ?_⟩
    simp only [hfind]
    rfl
  | none =>
    have hnew := h.intfs.createNode hfind
    set p := (dhcpv6rCreateIntferfaceNode s.intfs portName).1 with hpnew
    set s₁ : State := ⟨s.servers, (dhcpv6rCreateIntferfaceNode s.intfs portName).2⟩ with hs₁
    have hkeys : ∀ p', s₁.keysAt p' = s.keysAt p' := fun p' =>
      State.keysAt_congr (congrFun hnew.refsAt p') fun _ _ => rfl
    have hnone : s.interface portName = none := by
      rw [State.interface, hfind]
    refine ⟨p, s₁, _, hnew.node, ⟨⟨h.servers, hnew.inv, fun q => ?_⟩, fun m hm => ?_,
      fun p' hne => ⟨hnew.others p' hne, hkeys p'⟩⟩, ?_, fun m hm => ?_, ?_⟩
    · exact (h.counted q).trans (hnew.total q).symm
    · rw [hnew.node, Option.some.injEq] at hm
      rw [← hm]
    · rw [hkeys, State.keysAt_eq, InterfaceTable.refsAt_eq_nil hnew.absent, State.heldBy, hnone]
      rfl
    · rw [hnew.absent] at hm
      exact absurd hm (by simp)
    · simp only [hfind]
      rfl

theorem Listed.changed (h : Listed ovs ports seen s) (hfew : ports.card ≤ 65535)
    (hapart : Apart seen) (hports : ∀ name, rec.port = some name → name ∈ ports)
    (hrow : ∀ name, rec.port = some name → ∀ a ∈ rec.ipv6UcastServer, seen name a)
    (ucastServerModified : Bool) :
    Meets Fault.MayStop (Listed ovs ports seen)
      (dhcpv6rHandleConfigChange ovs s rec ucastServerModified) := by
  cases hport : rec.port with
  | none =>
    unfold dhcpv6rHandleConfigChange
    rw [hport]
    exact h
  | some name =>
    cases hvrf : rec.vrf with
    | none =>
      unfold dhcpv6rHandleConfigChange
      rw [hport, hvrf]
      exact h
    | some vrf =>
      cases ucastServerModified with
      | false =>
        obtain ⟨p, s₁, -, -, htouches, hkeys, -, heq⟩ :=
          dhcpv6rHandleConfigChange_unmodified h.inv hport hvrf
        rw [heq]
        exact h.looked htouches (hports name hport) hkeys
      | true =>
        obtain ⟨p, s₁, n, hp, -, htouches, hkeys, -, heq⟩ :=
          dhcpv6rHandleConfigChange_eq h.inv hport hvrf
        have hseen := hrow name hport
        rw [← htouches.name n hp] at hseen
        obtain ⟨s₂, hrun, hlisted, n₂, hp₂, -⟩ :=
          (h.looked htouches (hports name hport) hkeys).added hfew hapart hp hseen
        rw [heq, hrun]
        exact hlisted.flushed hapart hp₂ rfl (Nat.zero_le _)

theorem Listed.rowsDeleted (h : Listed ovs ports seen s) (hapart : Apart seen)
    (rows : List DhcpRelayRow) :
    Meets Fault.MayStop (Listed ovs ports seen) (dhcpv6rHandleRowDelete ovs s rows) :=
  Meets.foldlM (fun _ e hs _ => hs.rowDeleted hapart rows e) h

/-- One call of the daemon. -/
theorem Listed.reconfigured (h : Listed ovs ports seen s) (hfew : ports.card ≤ 65535)
    (hapart : Apart seen) (poll : Poll)
    (hports : ∀ rec ∈ poll.rows, ∀ name, rec.port = some name → name ∈ ports)
    (hrows : ∀ rec ∈ poll.rows, ∀ name, rec.port = some name →
      ∀ a ∈ rec.ipv6UcastServer, seen name a) :
    Meets Fault.MayStop (Listed ovs ports seen) (dhcpv6rReconfigure ovs s poll) := by
  have hdelete := h.rowsDeleted hapart poll.rows
  have hvisits : ∀ s₁, Listed ovs ports seen s₁ → Meets Fault.MayStop (Listed ovs ports seen)
      (poll.table.rows.foldlM (fun s rec =>
        if rec.inserted || rec.modified then
          dhcpv6rHandleConfigChange ovs s rec.row poll.ucastServerModified
        else pure s) s₁) := by
    intro s₁ hs₁
    refine Meets.foldlM (fun c rec hc hrec => ?_) hs₁
    have hmem : rec.row ∈ poll.rows := List.mem_map_of_mem hrec
    exact Meets.ite (fun _ => hc.changed hfew hapart (hports rec.row hmem) (hrows rec.row hmem)
      poll.ucastServerModified) fun _ => hc
  unfold dhcpv6rReconfigure dhcpv6rServerConfigUpdate
  refine Meets.ite (fun _ => hdelete) fun _ => Meets.ite (fun _ => h) fun _ => ?_
  exact Meets.ite (fun _ => hdelete.bind hvisits) fun _ => hvisits s h

end listed

/-! ## Runs -/

/-- What a run leaves: a consistent cache, in which an interface has each server once and no
server that was not listed for it. -/
structure ServesSeen (polls : List Poll) (s : State) : Prop where
  consistent : Consistent s
  once : ∀ name, (s.heldBy name).Nodup
  listed : ∀ name, ∀ k ∈ s.heldBy name, ∃ a, k = (a, none) ∧ SeenIn polls name a

/-- A run over any tables of which no address is a beginning of another one stops at one of the
three accesses, or leaves a consistent cache of listed servers. -/
theorem servers_of_polls (ovs : Ovs) (polls : List Poll) (ports : Finset CString)
    (hfew : ports.card ≤ 65535)
    (hports : ∀ poll ∈ polls, ∀ rec ∈ poll.rows, ∀ name, rec.port = some name → name ∈ ports)
    (hapart : Apart (SeenIn polls)) :
    Meets Fault.MayStop (ServesSeen polls) (runPolls ovs polls) := by
  have hrun : Meets Fault.MayStop (Listed ovs ports (SeenIn polls)) (runPolls ovs polls) := by
    refine Meets.foldlM (fun s poll hs hpoll => ?_) Listed.empty
    refine hs.reconfigured hfew hapart poll (hports poll hpoll) ?_
    intro rec hrec name hport a ha
    exact ⟨poll, hpoll, rec, hrec, hport, ha⟩
  refine hrun.mono fun s hs => ⟨hs.inv.consistent, fun name => (hs.heldBy name).1, ?_⟩
  exact fun name => (hs.heldBy name).2

/-- Two interfaces share a server, and one of them loses its row. -/
def sharedPolls : List Poll :=
  [⟨⟨[⟨⟨some "1".toList, some "vrf_default".toList, ["2001:db8::1".toList]⟩, true, false⟩,
      ⟨⟨some "2".toList, some "vrf_default".toList,
        ["2001:db8::1".toList, "2001:db8::2".toList]⟩, true, false⟩], true, false, false⟩, true⟩,
    ⟨⟨[⟨⟨some "2".toList, some "vrf_default".toList,
      ["2001:db8::1".toList, "2001:db8::2".toList]⟩, false, false⟩], false, true, false⟩, false⟩]

theorem servers_of_polls_shared :
    ∃ s, runPolls exampleOvs sharedPolls = .ok s ∧ s.heldBy "1".toList = [] ∧
      ServesSeen sharedPolls s := by
  have hserves := servers_of_polls exampleOvs sharedPolls {"1".toList, "2".toList} (by decide)
    (by decide) (apart_of_addresses (by decide))
  have hrun : runPolls exampleOvs sharedPolls = .ok _ := rfl
  rw [hrun] at hserves
  exact ⟨_, hrun, by decide, hserves⟩

end Dhcpv6r
end IpApps
