import IpApps.Dhcpv6r.InterfaceTable
import IpApps.Dhcpv6r.ServerMap

/-!
# The server cache

The map and the interface table together: every entry counts the slots that point to it.
For storing and removing an address one lemma says what the function returns and what it
changes.
-/

namespace IpApps
namespace Dhcpv6r

open ExceptLoops SwapErase

/-! ## The invariant -/

/-- The representation invariant of the cache. -/
structure CacheInv (ovs : Ovs) (s : State) : Prop where
  servers : s.servers.Inv ovs
  intfs : s.intfs.Inv
  counted : ∀ q, s.servers.refs q = s.intfs.total q

/-- The entries in the slots of an interface, in array order. -/
def State.serversAt (s : State) (p : NodePtr) : List Server :=
  (s.intfs.refsAt p).filterMap s.servers.entries

/-- The servers of an interface, in array order. -/
def State.keysAt (s : State) (p : NodePtr) : List ServerKey :=
  (s.serversAt p).map Server.key

theorem State.keysAt_eq (s : State) (p : NodePtr) :
    s.keysAt p = (s.intfs.refsAt p).filterMap s.servers.keyOf := by
  rw [State.keysAt, State.serversAt, List.map_filterMap]
  rfl

theorem CacheInv.empty (ovs : Ovs) : CacheInv ovs State.empty := by
  refine ⟨⟨?_, List.nodup_nil, ?_, ?_, ?_⟩, ⟨List.nodup_nil, ?_, ?_, ?_⟩, ?_⟩ <;>
    simp [State.empty, ServerMap.keyOf, ServerMap.refs, InterfaceTable.total]

namespace CacheInv

variable {ovs : Ovs} {s : State} {p : NodePtr} {n : InterfaceNode} (h : CacheInv ovs s)

include h

/-- Every used slot points to a live entry. -/
theorem live {q : ServerPtr} (hq : q ∈ s.intfs.refsAt p) : ∃ r, s.servers.entries q = some r := by
  cases hr : s.servers.entries q with
  | some r => exact ⟨r, rfl⟩
  | none =>
    have hzero : s.servers.refs q = 0 := by rw [ServerMap.refs, hr]
    rw [h.counted] at hzero
    exact absurd hq (h.intfs.not_mem_refsAt hzero p)

theorem length_serversAt : (s.serversAt p).length = (s.intfs.refsAt p).length :=
  length_filterMap_eq fun _ hq => h.live hq

theorem length_keysAt : (s.keysAt p).length = (s.intfs.refsAt p).length := by
  rw [State.keysAt, List.length_map, h.length_serversAt]

theorem addrCount_eq (hp : s.intfs.nodes p = some n) : n.addrCount = (s.keysAt p).length := by
  rw [h.length_keysAt, InterfaceTable.refsAt_eq hp, ← (h.intfs.packed p n hp).count]

theorem length_keysAt_le : (s.keysAt p).length ≤ maxServersPerInterface := by
  rw [h.length_keysAt]
  cases hp : s.intfs.nodes p with
  | none =>
    rw [InterfaceTable.refsAt_eq_nil hp]
    exact Nat.zero_le _
  | some n =>
    rw [InterfaceTable.refsAt_eq hp]
    exact (h.intfs.packed p n hp).bound

/-- The pointer in a slot, and the server behind it. -/
theorem slot_eq (hp : s.intfs.nodes p = some n) {i : ℕ} (hi : i < (s.keysAt p).length) :
    ∃ q, n.slot i = .ok q ∧ n.refs[i]? = some q ∧ s.servers.keyOf q = some (s.keysAt p)[i] := by
  have hi' : i < (s.intfs.refsAt p).length := by rwa [← h.length_keysAt]
  have hi'' : i < n.refs.length := by rwa [← InterfaceTable.refsAt_eq hp]
  refine ⟨n.refs[i], (h.intfs.packed p n hp).slot_eq i hi'', List.getElem?_eq_getElem hi'', ?_⟩
  have hget := getElem?_filterMap_eq (fun q hq => by
    obtain ⟨r, hr⟩ := h.live (p := p) hq
    exact ⟨r.key, by rw [ServerMap.keyOf, hr]; rfl⟩ : ∀ q ∈ s.intfs.refsAt p,
      ∃ k, s.servers.keyOf q = some k) i hi'
  rw [← State.keysAt_eq, List.getElem?_eq_getElem hi] at hget
  simp only [InterfaceTable.refsAt_eq hp] at hget
  exact hget.symm

/-- The entries in the slots of an interface, read one by one. -/
theorem slotServer_eq (hp : s.intfs.nodes p = some n) (i : ℕ)
    (hi : i < (s.serversAt p).length) : s.slotServer n i = .ok (s.serversAt p)[i] := by
  have hi' : i < (s.intfs.refsAt p).length := by rwa [← h.length_serversAt]
  have hget := getElem?_filterMap_eq (fun q hq => h.live (p := p) hq) i hi'
  rw [List.getElem?_eq_getElem (by rwa [State.serversAt] at hi)] at hget
  have hslot : n.slot i = .ok (s.intfs.refsAt p)[i] := by
    simp only [InterfaceTable.refsAt_eq hp] at hi' ⊢
    exact (h.intfs.packed p n hp).slot_eq i hi'
  rw [State.slotServer, hslot, ok_bind, ServerMap.server, ← hget]
  rfl

/-- The slot at which `dhcpv6r_remove_server_ref_entry` finds a server. -/
theorem findSlot_eq (hp : s.intfs.nodes p = some n) (k : ServerKey) :
    ((List.range n.addrCount).findM? fun index => do
      let server ← s.slotServer n index
      return compareServer server.ipv6Address k.1 server.egressIfName k.2)
        = .ok ((s.keysAt p).findIdx? (·.begins k)) := by
  rw [h.addrCount_eq hp, State.keysAt, List.length_map,
    findM?_range_eq (fun r => compareServer r.ipv6Address k.1 r.egressIfName k.2)
      (h.slotServer_eq hp), List.findIdx?_map]
  rfl

end CacheInv

/-! ## Storing an address -/

/-- The servers of an interface depend on its pointers and the keys behind them only. -/
theorem State.keysAt_congr {s s' : State} {p : NodePtr}
    (hrefs : s'.intfs.refsAt p = s.intfs.refsAt p)
    (hkeys : ∀ q ∈ s.intfs.refsAt p, s'.servers.keyOf q = s.servers.keyOf q) :
    s'.keysAt p = s.keysAt p := by
  rw [State.keysAt_eq, State.keysAt_eq, hrefs]
  exact List.filterMap_congr hkeys

section store

variable {ovs : Ovs} {s s' : State} {p : NodePtr} {n : InterfaceNode}

/-- A full interface refuses the address. -/
theorem dhcpv6rStoreAddress_full (hp : s.intfs.nodes p = some n)
    (hfull : maxServersPerInterface ≤ n.addrCount) (k : ServerKey) :
    dhcpv6rStoreAddress ovs s p k.1 k.2 = .ok (false, s) := by
  unfold dhcpv6rStoreAddress
  rw [InterfaceTable.node_eq hp]
  show (if maxServersPerInterface ≤ n.addrCount then _ else _) = _
  rw [if_pos hfull]
  rfl

/-- What storing the server `k` does to an interface with room: a slot for the entry `q`
follows its servers. The entry stands for `k'`, which is `k`, or a server of the map with
the hash of `k` that `k` is a beginning of. -/
structure Stores (ovs : Ovs) (s s' : State) (p : NodePtr) (q : ServerPtr) (k k' : ServerKey) :
    Prop where
  source : s.servers.keyOf q = some k' ∨ (s.servers.keyOf q = none ∧ k' = k)
  found : s.servers.keyOf q ≠ none →
    dhcpv6rGetServerEntry ovs s.servers k.1 k.2 = .ok (some q)
  added : s.servers.keyOf q = none → (∀ q', s.servers.keyOf q' ≠ some k) ∧
    s'.servers = (dhcpv6rAddServerEntry ovs s.servers k.1 k.2).2
  kept : s.servers.keyOf q ≠ none → ServerMap.SameEntries s'.servers s.servers
  begins : k.begins k' = true
  hash : k'.hash ovs = k.hash ovs
  keyOf : s'.servers.keyOf = Function.update s.servers.keyOf q (some k')
  refs : s.servers.refs q < 65535 →
    s'.servers.refs = Function.update s.servers.refs q (s.servers.refs q + 1)
  inv : s.servers.refs q < 65535 → CacheInv ovs s'
  keys : s'.keysAt p = s.keysAt p ++ [k']
  table : s'.intfs.intfHashTable = s.intfs.intfHashTable
  node : ∀ n, s.intfs.nodes p = some n →
    ∃ n', s'.intfs.nodes p = some n' ∧ n'.portName = n.portName
  others : ∀ p', p' ≠ p → s'.intfs.nodes p' = s.intfs.nodes p' ∧ s'.keysAt p' = s.keysAt p'

theorem dhcpv6rStoreAddress_eq (h : CacheInv ovs s) (hp : s.intfs.nodes p = some n)
    (hroom : (s.keysAt p).length < maxServersPerInterface) (k : ServerKey) :
    ∃ q s' k', dhcpv6rStoreAddress ovs s p k.1 k.2 = .ok (true, s') ∧
      Stores ovs s s' p q k k' := by
  have hholds := h.intfs.packed p n hp
  have hrefsp := InterfaceTable.refsAt_eq hp
  rw [h.length_keysAt, hrefsp] at hroom
  obtain ⟨q, m', k', htake, ht⟩ := ServerMap.takeServerRef_eq h.servers k
  obtain ⟨n', hset, hname, hholds'⟩ := hholds.push_eq hroom q
  set n₂ : InterfaceNode := { n' with addrCount := n'.addrCount + 1 } with hn₂
  set s' : State := ⟨m', s.intfs.setNode p n₂⟩ with hs'
  have hself : s'.intfs.refsAt p = n.refs ++ [q] := InterfaceTable.refsAt_setNode_self hholds'
  have hother : ∀ p', p' ≠ p → s'.intfs.refsAt p' = s.intfs.refsAt p' :=
    fun p' hne => InterfaceTable.refsAt_setNode_of_ne hne
  -- the servers behind the old pointers are the same
  have hkeys : ∀ p', ∀ q' ∈ s.intfs.refsAt p', m'.keyOf q' = s.servers.keyOf q' := by
    intro p' q' hq'
    obtain ⟨r, hr⟩ := h.live hq'
    rw [ht.keyOf]
    by_cases hqq : q' = q
    · subst hqq
      rw [Function.update_self]
      rcases ht.source with hold | ⟨hnone, _⟩
      · exact hold.symm
      · rw [ServerMap.keyOf, hr] at hnone
        exact absurd hnone (by simp)
    · rw [Function.update_of_ne hqq]
  refine ⟨q, s', k', ?_,
    ⟨ht.source, ht.found, ht.added, ht.kept, ht.begins, ht.hash, ht.keyOf, ht.refs, ?_, ?_, rfl,
      ?_, ?_⟩⟩
  · unfold dhcpv6rStoreAddress
    rw [InterfaceTable.node_eq hp]
    show (if maxServersPerInterface ≤ n.addrCount then _ else _) = _
    have hvalid : ¬(n.addrCount ≠ 0 ∧ n.serverArray = none) := by
      intro hbad
      by_cases hnil : n.refs = []
      · exact hbad.1 (by rw [hholds.count, hnil]; rfl)
      · rw [hholds.array_eq hnil] at hbad
        exact absurd hbad.2 (by simp)
    rw [if_neg (by rw [hholds.count]; omega)]
    show (if n.addrCount ≠ 0 ∧ n.serverArray = none then _ else _) = _
    rw [if_neg hvalid]
    show (takeServerRef ovs s.servers k.1 k.2 >>= fun r =>
      n.allocated.setSlot n.allocated.addrCount r.1 >>= _) = _
    rw [htake, ok_bind, hset]
    rfl
  · intro hlt
    refine ⟨ht.inv hlt, h.intfs.setNode hp ?_ hholds', ?_⟩
    · rw [hn₂, ← hname]
    · intro q'
      have hsum : s'.intfs.total q' + n.refs.count q' =
          s.intfs.total q' + (n.refs ++ [q]).count q' := h.intfs.total_setNode hp hholds' q'
      rw [List.count_append] at hsum
      show m'.refs q' = _
      rw [ht.refs hlt]
      by_cases hqq : q' = q
      · subst hqq
        rw [Function.update_self, h.counted]
        rw [List.count_singleton_self] at hsum
        omega
      · rw [Function.update_of_ne hqq, h.counted]
        rw [List.count_singleton, if_neg (by simpa using fun heq => hqq heq.symm)] at hsum
        omega
  · rw [State.keysAt_eq, State.keysAt_eq, hself, hrefsp, List.filterMap_append,
      List.filterMap_congr fun q' hq' => hkeys p q' (by rwa [hrefsp])]
    show _ ++ [q].filterMap m'.keyOf = _
    rw [List.filterMap_cons, ht.keyOf, Function.update_self]
    rfl
  · intro m hm
    rw [hp, Option.some.injEq] at hm
    subst hm
    exact ⟨n₂, InterfaceTable.nodes_setNode_self, hname⟩
  · intro p' hne
    exact ⟨InterfaceTable.nodes_setNode_of_ne hne,
      State.keysAt_congr (hother p' hne) (hkeys p')⟩

end store

/-! ## Removing an address -/

section remove

variable {ovs : Ovs} {s s' : State} {p : NodePtr} {n : InterfaceNode} {k : ServerKey}

/-- Without a server that is a beginning of `k` nothing is removed. -/
theorem dhcpv6rRemoveAddress_absent (h : CacheInv ovs s) (hp : s.intfs.nodes p = some n)
    (hk : (s.keysAt p).findIdx? (·.begins k) = none) :
    dhcpv6rRemoveAddress ovs s p k.1 k.2 = .ok (false, s) := by
  unfold dhcpv6rRemoveAddress dhcpv6rRemoveServerRefEntry
  rw [InterfaceTable.node_eq hp, ok_bind, h.findSlot_eq hp, hk]
  rfl

/-- The entry in the slot that is found, and what becomes of the removal when its
reference can or cannot be dropped. -/
theorem dhcpv6rRemoveServerRefEntry_eq (h : CacheInv ovs s) (hp : s.intfs.nodes p = some n)
    {index : ℕ} (hk : (s.keysAt p).findIdx? (·.begins k) = some index) :
    ∃ (hlt : index < (s.keysAt p).length) (q : ServerPtr), n.refs[index]? = some q ∧
      s.servers.keyOf q = some (s.keysAt p)[index] ∧
      dhcpv6rRemoveServerRefEntry ovs s p k.1 k.2 =
        (do
          let servers ← dropServerRef s.servers q (k.hash ovs)
          return some (index, ⟨servers, s.intfs.setNode p (n.clearSlot index)⟩)) := by
  obtain ⟨hlt, _, _⟩ := List.findIdx?_eq_some_iff_getElem.mp hk
  obtain ⟨q, hslot, hq, hkey⟩ := h.slot_eq hp hlt
  refine ⟨hlt, q, hq, hkey, ?_⟩
  unfold dhcpv6rRemoveServerRefEntry
  rw [InterfaceTable.node_eq hp, ok_bind, h.findSlot_eq hp, hk, ok_bind]
  show (n.slot index >>= _) = _
  rw [hslot, ok_bind]
  rfl

/-- The last reference to a server is not dropped under the hash of another one. -/
theorem dhcpv6rRemoveAddress_stray (h : CacheInv ovs s) (hp : s.intfs.nodes p = some n)
    {index : ℕ} (hk : (s.keysAt p).findIdx? (·.begins k) = some index) {q : ServerPtr}
    (hq : n.refs[index]? = some q) {k' : ServerKey} (hkey : s.servers.keyOf q = some k')
    (hlast : s.servers.refs q = 1) (hstray : k.hash ovs ≠ k'.hash ovs) :
    dhcpv6rRemoveAddress ovs s p k.1 k.2 = .error .notFiled := by
  obtain ⟨_, q', hq', _, hentry⟩ := dhcpv6rRemoveServerRefEntry_eq h hp hk
  rw [hq] at hq'
  obtain rfl := Option.some.inj hq'
  unfold dhcpv6rRemoveAddress
  rw [hentry, ServerMap.dropServerRef_stray h.servers hkey hlast hstray]
  rfl

/-- What a removal does to an interface whose slot `index` holds the server `k'`: the slot
is closed, and with its last server the interface goes. -/
structure Removes (ovs : Ovs) (s s' : State) (p : NodePtr) (index : ℕ) (q : ServerPtr)
    (k' : ServerKey) : Prop where
  inv : CacheInv ovs s'
  keyOf : s.servers.keyOf q = some k'
  map : s'.servers.serverHashMap =
    if s.servers.refs q = 1 then s.servers.serverHashMap.erase (k'.hash ovs, q)
    else s.servers.serverHashMap
  refs : s'.servers.refs = Function.update s.servers.refs q (s.servers.refs q - 1)
  keys : s'.keysAt p = swapErase (s.keysAt p) index
  stays : (s.keysAt p).length ≠ 1 → s'.intfs.intfHashTable = s.intfs.intfHashTable ∧
    ∀ n, s.intfs.nodes p = some n →
      ∃ n', s'.intfs.nodes p = some n' ∧ n'.portName = n.portName
  goes : (s.keysAt p).length = 1 → s'.intfs.nodes p = none ∧
    ∀ n, s.intfs.nodes p = some n →
      s'.intfs.intfHashTable = s.intfs.intfHashTable.erase (n.portName, p)
  others : ∀ p', p' ≠ p → s'.intfs.nodes p' = s.intfs.nodes p' ∧ s'.keysAt p' = s.keysAt p'

/-- The table after slot `index` of a node, which points to `q`, is closed. -/
structure ClosesSlot (t t' : InterfaceTable) (p : NodePtr) (n : InterfaceNode) (index : ℕ)
    (q : ServerPtr) : Prop where
  inv : t'.Inv
  total : ∀ q', t'.total q' + [q].count q' = t.total q'
  refsAt : t'.refsAt p = swapErase n.refs index
  others : ∀ p', p' ≠ p → t'.nodes p' = t.nodes p'
  stays : n.refs.length ≠ 1 → t'.intfHashTable = t.intfHashTable ∧
    ∃ n', t'.nodes p = some n' ∧ n'.portName = n.portName
  goes : n.refs.length = 1 → t'.nodes p = none ∧
    t'.intfHashTable = t.intfHashTable.erase (n.portName, p)

section closes

variable {t : InterfaceTable} {m' : ServerMap} {index : ℕ} {q : ServerPtr}

/-- The slot of the last server: the node goes with its array. -/
theorem dhcpv6rRemoveAddress_last (h : t.Inv) (hp : t.nodes p = some n)
    (hq : n.refs[index]? = some q) (hone : n.refs.length = 1)
    (hentry : dhcpv6rRemoveServerRefEntry ovs s p k.1 k.2
      = .ok (some (index, ⟨m', t.setNode p (n.clearSlot index)⟩))) :
    dhcpv6rRemoveAddress ovs s p k.1 k.2
        = .ok (true, ⟨m', (t.shashDelete n.portName p).freeNode p⟩) ∧
      ClosesSlot t ((t.shashDelete n.portName p).freeNode p) p n index q := by
  have hholds := h.packed p n hp
  have hcount := hholds.count
  obtain ⟨hlt, hqget⟩ := List.getElem?_eq_some_iff.mp hq
  obtain rfl : index = 0 := by omega
  -- the one slot is the one that is cleared
  have hrefs : n.refs = [q] := by
    obtain ⟨q', hq'⟩ := List.length_eq_one_iff.mp hone
    simp only [hq'] at hqget ⊢
    simpa using hqget
  constructor
  · have hnode : (t.setNode p (n.clearSlot 0)).node p = .ok (n.clearSlot 0) :=
      InterfaceTable.node_eq InterfaceTable.nodes_setNode_self
    have hzero : (n.clearSlot 0).addrCount - 1 = 0 := by
      show n.addrCount - 1 = 0
      omega
    obtain ⟨unused, harr⟩ := hholds.clearSlot_eq hone
    have hfind : (t.setNode p (n.clearSlot 0)).shashFind n.portName = some p :=
      (h.shashFind_eq_some_iff n.portName p).mpr ⟨n, hp, rfl⟩
    unfold dhcpv6rRemoveAddress
    rw [hentry, ok_bind]
    show ((t.setNode p (n.clearSlot 0)).node p >>= _) = _
    rw [hnode, ok_bind, if_neg fun hne => hne ⟨rfl, hzero⟩]
    simp only [pure_bind, harr, hzero, List.head?_cons, and_self, if_true]
    rw [show (n.clearSlot 0).portName = n.portName from rfl, hfind]
    simp only [InterfaceTable.setNode, InterfaceTable.shashDelete, InterfaceTable.freeNode,
      Function.update_idem]
    rfl
  · refine ⟨h.deleteNode hp, ?_, ?_, fun p' hne => Function.update_of_ne hne ..,
      fun hne => absurd hone hne, fun _ => ⟨Function.update_self .., rfl⟩⟩
    · intro q'
      have hsum := h.total_deleteNode hp q'
      rw [hrefs] at hsum
      exact hsum
    · rw [InterfaceTable.refsAt_eq_nil (Function.update_self ..), hrefs]
      rfl

/-- The slot of one server of several: the array is packed again. -/
theorem dhcpv6rRemoveAddress_packed (h : t.Inv) (hp : t.nodes p = some n)
    (hq : n.refs[index]? = some q) (hone : n.refs.length ≠ 1)
    (hentry : dhcpv6rRemoveServerRefEntry ovs s p k.1 k.2
      = .ok (some (index, ⟨m', t.setNode p (n.clearSlot index)⟩))) :
    ∃ n', dhcpv6rRemoveAddress ovs s p k.1 k.2 = .ok (true, ⟨m', t.setNode p n'⟩) ∧
      ClosesSlot t (t.setNode p n') p n index q := by
  have hholds := h.packed p n hp
  have hcount := hholds.count
  obtain ⟨hlt, hqget⟩ := List.getElem?_eq_some_iff.mp hq
  -- the last server moves to the slot that was cleared
  obtain ⟨n', hpush, hname, hsome, hholds'⟩ := hholds.pushDeleted_eq index hlt hone
  refine ⟨n', ?_, h.setNode hp hname hholds', ?_, InterfaceTable.refsAt_setNode_self hholds',
    fun p' hne => InterfaceTable.nodes_setNode_of_ne hne,
    fun _ => ⟨rfl, n', InterfaceTable.nodes_setNode_self, hname⟩, fun heq => absurd heq hone⟩
  · have hnode : (t.setNode p (n.clearSlot index)).node p = .ok (n.clearSlot index) :=
      InterfaceTable.node_eq InterfaceTable.nodes_setNode_self
    obtain ⟨slots, hslots⟩ := Option.isSome_iff_exists.mp hsome
    have hne : (n.clearSlot index).addrCount - 1 ≠ 0 := by
      show n.addrCount - 1 ≠ 0
      omega
    have hne' : n'.addrCount ≠ 0 := by
      rw [hholds'.count, length_swapErase]
      omega
    unfold dhcpv6rRemoveAddress
    rw [hentry, ok_bind]
    show ((t.setNode p (n.clearSlot index)).node p >>= _) = _
    rw [hnode, ok_bind, if_pos fun hbad => hne hbad.2]
    show (dhcpv6rPushDeletedServerRefToEnd
      { n.clearSlot index with addrCount := n.addrCount - 1 } index >>= _) = _
    rw [hpush]
    simp only [ok_bind, pure_bind, hslots]
    rw [if_neg fun hbad => hne' hbad.2]
    simp only [InterfaceTable.setNode, Function.update_idem]
    rfl
  · intro q'
    have hsum := h.total_setNode hp hholds' q'
    have hcnt := (perm_cons_swapErase n.refs index hlt).count_eq q'
    rw [hqget, List.count_cons, ← List.count_singleton] at hcnt
    omega

/-- The counters are right again once the closed slot's reference is dropped. -/
theorem ClosesSlot.cacheInv {t' : InterfaceTable} {k' : ServerKey}
    (hc : ClosesSlot s.intfs t' p n index q) (h : CacheInv ovs s)
    (hd : ServerMap.DropsRef ovs s.servers m' q k') : CacheInv ovs ⟨m', t'⟩ := by
  refine ⟨hd.inv, hc.inv, ?_⟩
  intro q'
  have hsum := hc.total q'
  show m'.refs q' = t'.total q'
  rw [hd.refs]
  by_cases hqq : q' = q
  · subst hqq
    rw [Function.update_self, h.counted]
    rw [List.count_singleton_self] at hsum
    omega
  · rw [Function.update_of_ne hqq, h.counted]
    rw [List.count_singleton, if_neg (by simpa using fun heq => hqq heq.symm)] at hsum
    omega

/-- The servers behind the pointers that are left are the same. -/
theorem ClosesSlot.keyOf_eq {t' : InterfaceTable} {k' : ServerKey}
    (hc : ClosesSlot s.intfs t' p n index q) (h : CacheInv ovs s)
    (hd : ServerMap.DropsRef ovs s.servers m' q k') {p' : NodePtr} {q' : ServerPtr}
    (hmem : q' ∈ t'.refsAt p') : m'.keyOf q' = s.servers.keyOf q' := by
  rw [hd.keyOf]
  split
  · rename_i hlast
    have hne : q' ≠ q := by
      intro heq
      have hzero : t'.total q' = 0 := by
        rw [← show m'.refs q' = t'.total q' from (hc.cacheInv h hd).counted q', hd.refs, heq,
          Function.update_self, hlast]
      exact hc.inv.not_mem_refsAt hzero p' hmem
    rw [Function.update_of_ne hne]
  · rfl

end closes

/-- The last reference is dropped under the server's own hash when the server removed is the
one that was asked for. -/
theorem dhcpv6rRemoveAddress_eq (h : CacheInv ovs s) (hp : s.intfs.nodes p = some n)
    {index : ℕ} (hk : (s.keysAt p).findIdx? (·.begins k) = some index) {q : ServerPtr}
    (hq : n.refs[index]? = some q) {k' : ServerKey} (hkey : s.servers.keyOf q = some k')
    (hown : s.servers.refs q = 1 → k.hash ovs = k'.hash ovs) :
    ∃ s', dhcpv6rRemoveAddress ovs s p k.1 k.2 = .ok (true, s') ∧
      Removes ovs s s' p index q k' := by
  obtain ⟨hlt, q', hq', hkey', hentry⟩ := dhcpv6rRemoveServerRefEntry_eq h hp hk
  rw [hq] at hq'
  obtain rfl := Option.some.inj hq'
  obtain ⟨m', hdrop, hd⟩ := ServerMap.dropServerRef_eq h.servers hkey hown
  rw [hdrop, ok_bind] at hentry
  have hrefsp := InterfaceTable.refsAt_eq hp
  have hlen : (s.keysAt p).length = n.refs.length := by rw [h.length_keysAt, hrefsp]
  obtain ⟨intfs, hrun, hc⟩ : ∃ intfs, dhcpv6rRemoveAddress ovs s p k.1 k.2
      = .ok (true, ⟨m', intfs⟩) ∧ ClosesSlot s.intfs intfs p n index q := by
    by_cases hone : n.refs.length = 1
    · exact ⟨_, dhcpv6rRemoveAddress_last h.intfs hp hq hone hentry⟩
    · obtain ⟨n', hpacked⟩ := dhcpv6rRemoveAddress_packed h.intfs hp hq hone hentry
      exact ⟨_, hpacked⟩
  refine ⟨⟨m', intfs⟩, hrun, ⟨hc.cacheInv h hd, hkey, hd.map, hd.refs, ?_, ?_, ?_, ?_⟩⟩
  · rw [State.keysAt_eq, State.keysAt_eq, hrefsp]
    show (intfs.refsAt p).filterMap m'.keyOf = _
    rw [List.filterMap_congr fun q' hmem => hc.keyOf_eq h hd hmem, hc.refsAt, filterMap_swapErase]
    intro q' hmem
    obtain ⟨r, hr⟩ := h.live (p := p) (hrefsp ▸ hmem)
    exact ⟨r.key, by rw [ServerMap.keyOf, hr]; rfl⟩
  · intro hne
    refine ⟨(hc.stays (hlen ▸ hne)).1, ?_⟩
    intro m hm
    rw [hp, Option.some.injEq] at hm
    subst hm
    exact (hc.stays (hlen ▸ hne)).2
  · intro hone
    refine ⟨(hc.goes (hlen ▸ hone)).1, ?_⟩
    intro m hm
    rw [hp, Option.some.injEq] at hm
    subst hm
    exact (hc.goes (hlen ▸ hone)).2
  · intro p' hne
    have hrefs' : intfs.refsAt p' = s.intfs.refsAt p' := by
      rw [InterfaceTable.refsAt, InterfaceTable.refsAt, hc.others p' hne]
    refine ⟨hc.others p' hne, State.keysAt_congr hrefs' ?_⟩
    intro q' hq'
    exact hc.keyOf_eq h hd (hrefs' ▸ hq')

/-- Removing the server in a slot closes that slot or one before it, unless it finds
another server first and drops its last reference. -/
theorem dhcpv6rRemoveAddress_own (h : CacheInv ovs s) (hp : s.intfs.nodes p = some n) {i : ℕ}
    (hi : i < (s.keysAt p).length) :
    dhcpv6rRemoveAddress ovs s p (s.keysAt p)[i].1 (s.keysAt p)[i].2 = .error .notFiled ∨
      ∃ s' index q k', index ≤ i ∧
        (s.keysAt p).findIdx? (·.begins (s.keysAt p)[i]) = some index ∧
        (s.keysAt p)[index]? = some k' ∧
        dhcpv6rRemoveAddress ovs s p (s.keysAt p)[i].1 (s.keysAt p)[i].2 = .ok (true, s') ∧
        Removes ovs s s' p index q k' := by
  cases hk : (s.keysAt p).findIdx? (·.begins (s.keysAt p)[i]) with
  | none =>
    have hfirst := List.findIdx?_eq_none_iff.mp hk _ (List.getElem_mem hi)
    rw [ServerKey.begins_refl] at hfirst
    exact absurd hfirst (by decide)
  | some index =>
    obtain ⟨hlt, q, hq, hkey, _⟩ := dhcpv6rRemoveServerRefEntry_eq h hp hk
    -- the server at `i` is found at `i` at the latest
    have hle : index ≤ i := by
      by_contra hgt
      obtain ⟨_, _, hfirst⟩ := List.findIdx?_eq_some_iff_getElem.mp hk
      exact hfirst i (by omega) (ServerKey.begins_refl _)
    -- the map is searched under the hash of the address, which may not be that of the server
    by_cases hown : s.servers.refs q = 1 →
        ServerKey.hash ovs (s.keysAt p)[i] = ServerKey.hash ovs (s.keysAt p)[index]
    · obtain ⟨s', hrun, hrem⟩ := dhcpv6rRemoveAddress_eq h hp hk hq hkey hown
      exact Or.inr ⟨s', index, q, _, hle, rfl, List.getElem?_eq_getElem hlt, hrun, hrem⟩
    · obtain ⟨hlast, hstray⟩ := Classical.not_imp.mp hown
      exact Or.inl (dhcpv6rRemoveAddress_stray h hp hk hq hkey hlast hstray)

end remove

/-! ## The interfaces of the cache -/

/-- A state of the daemon with its cache in order. -/
structure Cache (ovs : Ovs) where
  state : State
  inv : CacheInv ovs state

/-- What a walk over the interfaces sees of a node. -/
def State.view (s : State) (p : NodePtr) : Option InterfaceNode × List ServerKey :=
  (s.intfs.nodes p, s.keysAt p)

/-- The node filed under a name with its servers in array order. -/
def State.interface (s : State) (name : CString) : Option (InterfaceNode × List ServerKey) :=
  match s.intfs.shashFind name with
  | none => none
  | some p => (s.intfs.nodes p).map fun n => (n, s.keysAt p)

section interface

variable {ovs : Ovs} {s : State} {p : NodePtr} {n : InterfaceNode}

theorem CacheInv.interface_eq (h : CacheInv ovs s) (hp : s.intfs.nodes p = some n) :
    s.interface n.portName = some (n, s.keysAt p) := by
  have hfind := (h.intfs.shashFind_eq_some_iff n.portName p).mpr ⟨n, hp, rfl⟩
  rw [State.interface]
  simp only [hfind, hp, Option.map_some]

theorem CacheInv.interface_eq_none_iff (h : CacheInv ovs s) {name : CString} :
    s.interface name = none ↔ ∀ p n, s.intfs.nodes p = some n → n.portName ≠ name := by
  constructor
  · intro hnone p n hp hname
    rw [← hname, h.interface_eq hp] at hnone
    exact absurd hnone (by simp)
  · intro hnone
    unfold State.interface
    cases hfind : s.intfs.shashFind name with
    | none => rfl
    | some p =>
      obtain ⟨n, hp, hname⟩ := (h.intfs.shashFind_eq_some_iff name p).mp hfind
      exact absurd hname (hnone p n hp)

theorem CacheInv.interface_eq_some_iff (h : CacheInv ovs s) {name : CString}
    {ks : List ServerKey} :
    s.interface name = some (n, ks) ↔
      ∃ p, s.intfs.nodes p = some n ∧ n.portName = name ∧ s.keysAt p = ks := by
  constructor
  · intro hsome
    unfold State.interface at hsome
    cases hfind : s.intfs.shashFind name with
    | none =>
      rw [hfind] at hsome
      exact absurd hsome (by simp)
    | some p =>
      obtain ⟨m, hp, hname⟩ := (h.intfs.shashFind_eq_some_iff name p).mp hfind
      simp only [hfind, hp, Option.map_some, Option.some.injEq, Prod.mk.injEq] at hsome
      obtain ⟨rfl, hks⟩ := hsome
      exact ⟨p, hp, hname, hks⟩
  · intro hnode
    obtain ⟨p, hp, rfl, rfl⟩ := hnode
    exact h.interface_eq hp

end interface

end Dhcpv6r
end IpApps
