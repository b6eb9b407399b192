import IpApps.Lib.ExceptLoops
import IpApps.Lib.SwapErase
import IpApps.Udpfwd.ServerCache
import Mathlib.Algebra.Order.BigOperators.Group.List
import Mathlib.Data.List.ReduceOption
import Mathlib.Data.List.Perm.Basic

/-!
# The representation invariant of the server cache
-/

namespace IpApps
namespace Udpfwd

open ExceptLoops SwapErase

/-! ## What an interface node holds -/

/-- The pointers in the slots the interface uses. -/
def UdpfwdInterfaceNode.refs (n : UdpfwdInterfaceNode) : List ServerPtr :=
  ((n.serverArray.getD []).take n.addrCount).reduceOption

/-- The node's array is packed: its first slots hold `qs`, the others are unused, and
there is no array at all without servers. -/
structure UdpfwdInterfaceNode.Holds (n : UdpfwdInterfaceNode) (qs : List ServerPtr) :
    Prop where
  count : n.addrCount = qs.length
  bound : qs.length ≤ maxUdpBcastServerPerInterface
  array : (qs = [] ∧ n.serverArray = none) ∨
    (qs ≠ [] ∧ ∃ unused, qs.length + unused.length = maxUdpBcastServerPerInterface ∧
      n.serverArray = some (qs.map some ++ unused))

namespace UdpfwdInterfaceNode

variable {n : UdpfwdInterfaceNode} {qs : List ServerPtr}

theorem Holds.refs_eq (h : n.Holds qs) : n.refs = qs := by
  rcases h.array with ⟨rfl, harr⟩ | ⟨_, unused, _, harr⟩
  · rw [refs, harr, Option.getD_none, List.take_nil]
    rfl
  · rw [refs, harr, Option.getD_some, h.count, List.take_left' (List.length_map some),
      reduceOption_map_some]

theorem Holds.slot_eq (h : n.Holds qs) (i : ℕ) (hi : i < qs.length) :
    n.slot i = .ok qs[i] := by
  rcases h.array with ⟨rfl, _⟩ | ⟨_, unused, _, harr⟩
  · exact absurd hi (Nat.not_lt_zero i)
  · have hget : (qs.map some ++ unused)[i]? = some (some qs[i]) := by
      rw [List.getElem?_append_left (by rwa [List.length_map]), List.getElem?_map,
        List.getElem?_eq_getElem hi]
      rfl
    rw [slot, harr]
    simp only [hget]

/-- A node that was just created holds nothing. -/
theorem Holds.of_empty (hcount : n.addrCount = 0) (harr : n.serverArray = none) :
    n.Holds [] :=
  ⟨hcount, Nat.zero_le _, Or.inl ⟨rfl, harr⟩⟩

/-- The new last slot of a packed array with room. -/
theorem Holds.setSlot_eq {unused : List (Option ServerPtr)} (q : ServerPtr)
    (hcount : n.addrCount = qs.length)
    (hlen : qs.length + unused.length = maxUdpBcastServerPerInterface)
    (hroom : qs.length < maxUdpBcastServerPerInterface)
    (harr : n.serverArray = some (qs.map some ++ unused)) :
    ∃ n', n.setSlot n.addrCount q = .ok n' ∧ n'.portName = n.portName ∧
      n'.bootpGw = n.bootpGw ∧ n'.dhcpRelayPktCounters = n.dhcpRelayPktCounters ∧
      n'.addrCount = n.addrCount ∧
      Holds { n' with addrCount := n'.addrCount + 1 } (qs ++ [q]) := by
  obtain ⟨x, unused', rfl⟩ : ∃ x unused', unused = x :: unused' := by
    cases unused with
    | nil => rw [List.length_nil] at hlen; omega
    | cons x unused' => exact ⟨x, unused', rfl⟩
  have hset : (qs.map some ++ x :: unused').set qs.length (some q)
      = (qs ++ [q]).map some ++ unused' := by
    rw [List.set_append_right _ _ (by rw [List.length_map]), List.length_map, Nat.sub_self,
      List.set_cons_zero, List.map_append, List.append_assoc]
    rfl
  have hlt : qs.length < (qs.map some ++ x :: unused').length := by
    rw [List.length_append, List.length_map, List.length_cons]
    omega
  refine ⟨{ n with serverArray := some ((qs ++ [q]).map some ++ unused') }, ?_, rfl, rfl, rfl,
    rfl, ?_⟩
  · unfold setSlot
    simp only [harr, hcount, if_pos hlt, hset]
  · rw [List.length_cons] at hlen
    refine ⟨?_, ?_, Or.inr ⟨by simp, unused', ?_, rfl⟩⟩
    · simp only [List.length_append, List.length_singleton, hcount]
    · rw [List.length_append, List.length_singleton]
      omega
    · rw [List.length_append, List.length_singleton]
      omega

/-- Emptying slot `i` and pushing it to the end packs the array again. -/
theorem Holds.push_eq (h : n.Holds qs) (i : ℕ) (hi : i < qs.length) (hlen : qs.length ≠ 1) :
    ∃ n', udpfwdPushDeletedServerRefToEnd
        { n.clearSlot i with addrCount := n.addrCount - 1 } i = .ok n' ∧
      n'.portName = n.portName ∧ n'.bootpGw = n.bootpGw ∧
      n'.dhcpRelayPktCounters = n.dhcpRelayPktCounters ∧ n'.serverArray.isSome ∧
      n'.Holds (swapErase qs i) := by
  rcases h.array with ⟨rfl, _⟩ | ⟨_, unused, htotal, harr⟩
  · exact absurd hi (Nat.not_lt_zero i)
  obtain ⟨server, hget, hset⟩ := slots_push_eq qs unused i hi
  refine ⟨{ n with
    addrCount := n.addrCount - 1
    serverArray := some ((swapErase qs i).map some ++ none :: unused) },
    ?_, rfl, rfl, rfl, rfl, ?_⟩
  · simp only [udpfwdPushDeletedServerRefToEnd, clearSlot, harr, Option.map_some, h.count, hget,
      hset]
  · have hswap := length_swapErase qs i
    refine ⟨?_, ?_, Or.inr ⟨?_, none :: unused, ?_, rfl⟩⟩
    · rw [hswap, h.count]
    · rw [hswap]
      exact Nat.le_trans (Nat.sub_le _ _) h.bound
    · intro hnil
      rw [hnil, List.length_nil] at hswap
      omega
    · rw [hswap, List.length_cons]
      omega

/-- The array of the last server after the slot was emptied. -/
theorem Holds.clearSlot_eq (h : n.Holds qs) (i : ℕ) (hi : i < qs.length)
    (hlen : qs.length = 1) :
    ∃ unused, (n.clearSlot i).serverArray = some (none :: unused) := by
  rcases h.array with ⟨rfl, _⟩ | ⟨_, unused, _, harr⟩
  · exact absurd hi (Nat.not_lt_zero i)
  obtain ⟨q, rfl⟩ := List.length_eq_one_iff.mp hlen
  have hi0 : i = 0 := by
    rw [List.length_singleton] at hi
    omega
  subst hi0
  exact ⟨unused, by rw [clearSlot, harr]; rfl⟩

end UdpfwdInterfaceNode

/-! ## The servers of an interface -/

namespace State

variable (s : State)

/-- The pointers an interface holds, none when there is no node. -/
def refsAt (p : NodePtr) : List ServerPtr :=
  match s.nodes p with
  | some n => n.refs
  | none => []

/-- The entries in the slots of an interface, in array order. -/
def serversAt (p : NodePtr) : List UdpfwdServer :=
  (s.refsAt p).filterMap s.servers

/-- The servers of an interface, in array order. -/
def keysAt (p : NodePtr) : List ServerKey :=
  (s.serversAt p).map UdpfwdServer.key

/-- How often a server entry is referenced, over all interfaces. -/
def refTotal (q : ServerPtr) : ℕ :=
  (s.intfHashTable.map fun e => (s.refsAt e.2).count q).sum

variable {s}

/-- An entry has no more references than there are used slots. -/
theorem refTotal_le (q : ServerPtr) :
    s.refTotal q ≤ (s.intfHashTable.map fun e => (s.refsAt e.2).length).sum := by
  apply List.sum_le_sum
  intro e _
  exact List.count_le_length

theorem keysAt_eq (p : NodePtr) :
    s.keysAt p = (s.refsAt p).filterMap fun q => (s.servers q).map UdpfwdServer.key := by
  rw [keysAt, serversAt, List.map_filterMap]

theorem refsAt_eq {p : NodePtr} {n : UdpfwdInterfaceNode} (h : s.nodes p = some n) :
    s.refsAt p = n.refs := by
  rw [refsAt, h]

theorem refsAt_eq_nil {p : NodePtr} (h : s.nodes p = none) : s.refsAt p = [] := by
  rw [refsAt, h]

end State

/-! ## The invariant -/

/-- The pointer structure of the cache. -/
structure Linked (s : State) : Prop where
  /-- No two nodes are filed under one name. -/
  names : (s.intfHashTable.map Prod.fst).Nodup
  /-- The table files exactly the live nodes, each under its own name. -/
  listed : ∀ name p,
    (name, p) ∈ s.intfHashTable ↔ ∃ n, s.nodes p = some n ∧ n.portName = name
  /-- Every server array is packed. -/
  holds : ∀ p n, s.nodes p = some n → n.Holds n.refs
  /-- Every used slot points to a live entry. -/
  live : ∀ p, ∀ q ∈ s.refsAt p, ∃ r, s.servers q = some r
  /-- The map files exactly the live entries, each under the hash of its server. -/
  filed : ∀ h q, (h, q) ∈ s.serverHashMap ↔
    ∃ r, s.servers q = some r ∧ h = s.hashInt r.ipAddress r.udpPort.toUInt32
  filedOnce : s.serverHashMap.Nodup
  /-- There is at most one entry for a server. -/
  unique : ∀ q q' r r', s.servers q = some r → s.servers q' = some r' → r.key = r'.key → q = q'
  /-- The next pointers are fresh. -/
  freshNode : ∀ p n, s.nodes p = some n → p < s.nextNode
  freshServer : ∀ q r, s.servers q = some r → q < s.nextServer

/-- Every entry is referenced, and counts its references. -/
structure Counted (s : State) : Prop where
  positive : ∀ q r, s.servers q = some r → 0 < r.refCount.toNat
  total : ∀ q r, s.servers q = some r → r.refCount.toNat = s.refTotal q

/-- The representation invariant of the cache. -/
structure CacheInv (s : State) : Prop where
  linked : Linked s
  counted : Counted s

theorem CacheInv.empty (hashInt : UInt32 → UInt32 → UInt32) :
    CacheInv (State.empty hashInt) := by
  refine ⟨⟨List.nodup_nil, ?_, ?_, ?_, ?_, List.nodup_nil, ?_, ?_, ?_⟩, ⟨?_, ?_⟩⟩ <;>
    simp [State.empty, State.refsAt]

namespace Linked

variable {s : State} (h : Linked s)

include h

theorem mem_table {p : NodePtr} {n : UdpfwdInterfaceNode} (hp : s.nodes p = some n) :
    (n.portName, p) ∈ s.intfHashTable :=
  (h.listed _ _).mpr ⟨n, hp, rfl⟩

theorem table_nodup : s.intfHashTable.Nodup := List.Nodup.of_map _ h.names

/-- An entry of the table is determined by its node. -/
theorem table_eq_of_snd {p : NodePtr} {n : UdpfwdInterfaceNode} (hp : s.nodes p = some n)
    {e : CString × NodePtr} (he : e ∈ s.intfHashTable) (hep : e.2 = p) :
    e = (n.portName, p) := by
  obtain ⟨name, p'⟩ := e
  simp only at hep
  subst hep
  obtain ⟨n', hn', hname⟩ := (h.listed name p').mp he
  rw [hp, Option.some.injEq] at hn'
  rw [← hname, hn']

/-- `shash_find` finds the live node of a name. -/
theorem shashFind_eq_some_iff (name : CString) (p : NodePtr) :
    s.shashFind name = some p ↔ ∃ n, s.nodes p = some n ∧ n.portName = name := by
  rw [← h.listed, State.shashFind, find?_fst_eq_some_iff h.names]

theorem length_serversAt (p : NodePtr) : (s.serversAt p).length = (s.refsAt p).length :=
  length_filterMap_eq (h.live p)

theorem length_keysAt (p : NodePtr) : (s.keysAt p).length = (s.refsAt p).length := by
  rw [State.keysAt, List.length_map, h.length_serversAt]

theorem addrCount_eq {p : NodePtr} {n : UdpfwdInterfaceNode} (hp : s.nodes p = some n) :
    n.addrCount = (s.keysAt p).length := by
  rw [h.length_keysAt, State.refsAt_eq hp, ← (h.holds p n hp).count]

/-- The entries in the slots of an interface, read one by one. -/
theorem slotServer_eq {p : NodePtr} {n : UdpfwdInterfaceNode} (hp : s.nodes p = some n)
    (i : ℕ) (hi : i < (s.serversAt p).length) :
    s.slotServer n i = .ok (s.serversAt p)[i] := by
  have hi' : i < (s.refsAt p).length := by rwa [← h.length_serversAt]
  have hlive := getElem?_filterMap_eq (h.live p) i hi'
  rw [List.getElem?_eq_getElem (by rwa [State.serversAt] at hi)] at hlive
  have hslot : n.slot i = .ok (s.refsAt p)[i] := by
    simp only [State.refsAt_eq hp] at hi' ⊢
    exact (h.holds p n hp).slot_eq i hi'
  rw [State.slotServer, hslot]
  exact s.server_eq_ok hlive.symm

end Linked

/-! ## Looking a server up in the map -/

/-- `udpfwd_get_server_entry` finds the entry of a server exactly when there is one. -/
theorem udpfwdGetServerEntry_eq {s : State} (h : Linked s) (ipaddress : IpAddress)
    (udpPort : UInt16) :
    ∃ found, udpfwdGetServerEntry s ipaddress udpPort = .ok found ∧
      (∀ q, found = some q → ∃ r, s.servers q = some r ∧ r.key = (ipaddress, udpPort)) ∧
      (found = none → ∀ q r, s.servers q = some r → r.key ≠ (ipaddress, udpPort)) := by
  set hashVal := s.hashInt ipaddress udpPort.toUInt32 with hhash
  set entries := s.serverHashMap.filter (·.1 = hashVal) with hentries
  -- every entry of the bucket is live
  have hbody : ∀ e ∈ entries, (do return (← s.server e.2).is ipaddress udpPort :
      Except Fault Bool) = .ok ((s.servers e.2).any (·.is ipaddress udpPort)) := by
    intro e he
    obtain ⟨r, hr, _⟩ := (h.filed e.1 e.2).mp (List.mem_of_mem_filter he)
    rw [s.server_eq_ok hr, hr]
    rfl
  refine ⟨(entries.find? fun e => (s.servers e.2).any (·.is ipaddress udpPort)).map (·.2),
    ?_, ?_, ?_⟩
  · show (entries.findM? fun e => do return (← s.server e.2).is ipaddress udpPort) >>=
      (fun found => .ok (found.map (·.2))) = _
    rw [findM?_eq_ok hbody]
    rfl
  · intro q hq
    obtain ⟨e, he, rfl⟩ := Option.map_eq_some_iff.mp hq
    have hany := List.find?_some he
    obtain ⟨r, hr, _⟩ := (h.filed e.1 e.2).mp
      (List.mem_of_mem_filter (List.mem_of_find?_eq_some he))
    refine ⟨r, hr, ?_⟩
    simpa [hr, UdpfwdServer.is, UdpfwdServer.key] using hany
  · intro hnone q r hr hkey
    have hfind := List.find?_eq_none.mp (Option.map_eq_none_iff.mp hnone)
    have hipp : r.ipAddress = ipaddress ∧ r.udpPort = udpPort := by
      simpa [UdpfwdServer.key] using hkey
    have hmem : (hashVal, q) ∈ entries := by
      rw [hentries, List.mem_filter]
      refine ⟨(h.filed _ _).mpr ⟨r, hr, ?_⟩, by simp⟩
      rw [hipp.1, hipp.2]
    exact hfind _ hmem (by simp [hr, UdpfwdServer.is, hipp])

/-! ## Replacing a node -/

section setNode

variable {s : State} {p : NodePtr} {n n' : UdpfwdInterfaceNode} {qs : List ServerPtr}

theorem State.nodes_setNode_self : (s.setNode p n').nodes p = some n' := by
  rw [State.setNode]
  exact Function.update_self ..

theorem State.nodes_setNode_of_ne {p' : NodePtr} (hne : p' ≠ p) :
    (s.setNode p n').nodes p' = s.nodes p' := by
  rw [State.setNode]
  exact Function.update_of_ne hne ..

theorem State.refsAt_setNode_self : (s.setNode p n').refsAt p = n'.refs :=
  State.refsAt_eq State.nodes_setNode_self

theorem State.refsAt_setNode_of_ne {p' : NodePtr} (hne : p' ≠ p) :
    (s.setNode p n').refsAt p' = s.refsAt p' := by
  rw [State.refsAt, State.refsAt, State.nodes_setNode_of_ne hne]

/-- A packed node of the same name over live entries may replace a node. -/
theorem Linked.setNode (h : Linked s) (hp : s.nodes p = some n)
    (hname : n'.portName = n.portName) (hholds : n'.Holds qs)
    (hlive : ∀ q ∈ qs, ∃ r, s.servers q = some r) : Linked (s.setNode p n') where
  names := h.names
  listed := by
    intro name p'
    rw [show (s.setNode p n').intfHashTable = s.intfHashTable from rfl, h.listed]
    by_cases hpp : p' = p
    · subst hpp
      simp only [hp, State.nodes_setNode_self, Option.some.injEq, exists_eq_left', hname]
    · rw [State.nodes_setNode_of_ne hpp]
  holds := by
    intro p' m hm
    by_cases hpp : p' = p
    · subst hpp
      rw [State.nodes_setNode_self, Option.some.injEq] at hm
      subst hm
      rw [hholds.refs_eq]
      exact hholds
    · rw [State.nodes_setNode_of_ne hpp] at hm
      exact h.holds p' m hm
  live := by
    intro p' q hq
    by_cases hpp : p' = p
    · subst hpp
      rw [State.refsAt_setNode_self, hholds.refs_eq] at hq
      exact hlive q hq
    · rw [State.refsAt_setNode_of_ne hpp] at hq
      exact h.live p' q hq
  filed := h.filed
  filedOnce := h.filedOnce
  unique := h.unique
  freshNode := by
    intro p' m hm
    by_cases hpp : p' = p
    · subst hpp
      exact h.freshNode p' n hp
    · rw [State.nodes_setNode_of_ne hpp] at hm
      exact h.freshNode p' m hm
  freshServer := h.freshServer

/-- The references to an entry after a node was replaced. -/
theorem Linked.refTotal_setNode (h : Linked s) (hp : s.nodes p = some n)
    (hholds : n'.Holds qs) (q : ServerPtr) :
    (s.setNode p n').refTotal q + (s.refsAt p).count q = s.refTotal q + qs.count q := by
  have hsum := sum_map_update (f := fun e : CString × NodePtr => (s.refsAt e.2).count q)
    (g := fun e => ((s.setNode p n').refsAt e.2).count q) h.table_nodup (h.mem_table hp) ?_
  · rw [State.refsAt_setNode_self, hholds.refs_eq] at hsum
    exact hsum
  · intro e he hne
    rw [State.refsAt_setNode_of_ne]
    intro hep
    exact hne (h.table_eq_of_snd hp he hep)

end setNode

end Udpfwd
end IpApps
