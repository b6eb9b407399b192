import IpApps.Dhcpv6r.State
import IpApps.Lib.SwapErase

/-!
# The interface table

The pointers an interface holds in its server array, the nodes that are filed, and the
number of slots, over all interfaces, that point to a server entry.
-/

namespace IpApps
namespace Dhcpv6r

open SwapErase

/-! ## The server array of a node -/

/-- The pointers in the slots the interface uses. -/
def InterfaceNode.refs (n : InterfaceNode) : List ServerPtr :=
  ((n.serverArray.getD []).take n.addrCount).reduceOption

/-- The node's array is packed: its first slots hold `qs`, the others are empty, and there
is no array at all without servers. -/
structure InterfaceNode.Holds (n : InterfaceNode) (qs : List ServerPtr) : Prop where
  count : n.addrCount = qs.length
  bound : qs.length ≤ maxServersPerInterface
  array : n.serverArray =
    if qs = [] then none
    else some (qs.map some ++ List.replicate (maxServersPerInterface - qs.length) none)

namespace InterfaceNode

variable {n : InterfaceNode} {qs : List ServerPtr}

theorem Holds.array_eq (h : n.Holds qs) (hne : qs ≠ []) : n.serverArray =
    some (qs.map some ++ List.replicate (maxServersPerInterface - qs.length) none) := by
  rw [h.array, if_neg hne]

theorem Holds.refs_eq (h : n.Holds qs) : n.refs = qs := by
  unfold refs
  by_cases hnil : qs = []
  · rw [h.array, if_pos hnil, hnil, Option.getD_none, List.take_nil]
    rfl
  · rw [h.array_eq hnil, Option.getD_some, h.count, List.take_left' (List.length_map some),
      reduceOption_map_some]

theorem Holds.slot_eq (h : n.Holds qs) (i : ℕ) (hi : i < qs.length) :
    n.slot i = .ok qs[i] := by
  have hne : qs ≠ [] := List.ne_nil_of_length_pos (Nat.zero_lt_of_lt hi)
  have hget : (qs.map some ++ List.replicate (maxServersPerInterface - qs.length) none)[i]?
      = some (some qs[i]) := by
    rw [List.getElem?_append_left (by rwa [List.length_map]), List.getElem?_map,
      List.getElem?_eq_getElem hi]
    rfl
  rw [slot, h.array_eq hne]
  simp only [hget]

/-- The slots behind the pointers are empty. -/
theorem Holds.slot_empty (h : n.Holds qs) (hne : qs ≠ []) (i : ℕ) (hi : qs.length ≤ i)
    (hmax : i < maxServersPerInterface) : n.slot i = .error .nullPointer := by
  have hget : (qs.map some ++
      List.replicate (maxServersPerInterface - qs.length) (none : Option ServerPtr))[i]?
      = some none := by
    rw [List.getElem?_append_right (by rwa [List.length_map]), List.length_map,
      List.getElem?_replicate, if_pos (by omega)]
  rw [slot, h.array_eq hne]
  simp only [hget]

theorem Holds.of_empty (hcount : n.addrCount = 0) (harr : n.serverArray = none) :
    n.Holds [] :=
  ⟨hcount, Nat.zero_le _, harr⟩

/-- The node with an array, allocated if it had none. -/
def allocated (n : InterfaceNode) : InterfaceNode :=
  if n.serverArray = none then
    { n with
      addrCount := 0
      serverArray := some (List.replicate maxServersPerInterface none) }
  else n

/-- A node with room takes a pointer into its next slot. -/
theorem Holds.push_eq (h : n.Holds qs) (hroom : qs.length < maxServersPerInterface)
    (q : ServerPtr) :
    ∃ n', n.allocated.setSlot n.allocated.addrCount q = .ok n' ∧ n'.portName = n.portName ∧
      Holds { n' with addrCount := n'.addrCount + 1 } (qs ++ [q]) := by
  -- the array before, with a free slot behind the pointers
  obtain ⟨hcount, hname, harr⟩ : n.allocated.addrCount = qs.length ∧
      n.allocated.portName = n.portName ∧ n.allocated.serverArray =
        some (qs.map some ++ List.replicate (maxServersPerInterface - qs.length) none) := by
    unfold allocated
    by_cases hnil : qs = []
    · rw [if_pos (by rw [h.array, if_pos hnil]), hnil]
      exact ⟨rfl, rfl, rfl⟩
    · rw [if_neg (by rw [h.array_eq hnil]; simp)]
      exact ⟨h.count, rfl, h.array_eq hnil⟩
  obtain ⟨free, hfree⟩ : ∃ free, maxServersPerInterface - qs.length = free + 1 :=
    ⟨maxServersPerInterface - qs.length - 1, by omega⟩
  have hset : (qs.map some ++ List.replicate (free + 1) none).set qs.length (some q)
      = (qs ++ [q]).map some ++ List.replicate free none := by
    rw [List.set_append_right _ _ (by rw [List.length_map]), List.length_map, Nat.sub_self,
      List.replicate_succ, List.set_cons_zero, List.map_append, List.append_assoc]
    rfl
  have hlt : qs.length < (qs.map some ++
      List.replicate (free + 1) (none : Option ServerPtr)).length := by
    rw [List.length_append, List.length_map, List.length_replicate]
    omega
  refine ⟨{ n.allocated with
    serverArray := some ((qs ++ [q]).map some ++ List.replicate free none) }, ?_, hname, ?_, ?_, ?_⟩
  · unfold setSlot
    simp only [harr, hfree, hcount, if_pos hlt, hset]
  · simp only [List.length_append, List.length_singleton, hcount]
  · rw [List.length_append, List.length_singleton]
    omega
  · rw [if_neg (by simp), List.length_append, List.length_singleton,
      show maxServersPerInterface - (qs.length + 1) = free from by omega]

/-- Emptying slot `i` and pushing it to the end packs the array again. -/
theorem Holds.pushDeleted_eq (h : n.Holds qs) (i : ℕ) (hi : i < qs.length)
    (hlen : qs.length ≠ 1) :
    ∃ n', dhcpv6rPushDeletedServerRefToEnd
        { n.clearSlot i with addrCount := n.addrCount - 1 } i = .ok n' ∧
      n'.portName = n.portName ∧ n'.serverArray.isSome ∧ n'.Holds (swapErase qs i) := by
  have hne : qs ≠ [] := List.ne_nil_of_length_pos (Nat.zero_lt_of_lt hi)
  have hbound := h.bound
  obtain ⟨server, hget, hset⟩ :=
    slots_push_eq qs (List.replicate (maxServersPerInterface - qs.length) none) i hi
  have hswap := length_swapErase qs i
  have hne' : swapErase qs i ≠ [] := by
    intro hnil
    rw [hnil, List.length_nil] at hswap
    omega
  refine ⟨{ n with
    addrCount := n.addrCount - 1
    serverArray := some ((swapErase qs i).map some ++
      none :: List.replicate (maxServersPerInterface - qs.length) none) }, ?_, rfl, rfl,
    ?_, ?_, ?_⟩
  · simp only [dhcpv6rPushDeletedServerRefToEnd, clearSlot, h.array_eq hne, Option.map_some,
      h.count, hget, hset]
  · rw [hswap, h.count]
  · rw [hswap]
    exact Nat.le_trans (Nat.sub_le _ _) h.bound
  · rw [if_neg hne', hswap, ← List.replicate_succ,
      show maxServersPerInterface - (qs.length - 1) = maxServersPerInterface - qs.length + 1 from
        by omega]

/-- The array of the last server after the slot was emptied. -/
theorem Holds.clearSlot_eq (h : n.Holds qs) (hlen : qs.length = 1) :
    ∃ unused, (n.clearSlot 0).serverArray = some (none :: unused) := by
  obtain ⟨q, rfl⟩ := List.length_eq_one_iff.mp hlen
  exact ⟨_, by rw [clearSlot, h.array_eq (by simp)]; rfl⟩

end InterfaceNode

/-! ## The nodes of the table -/

namespace InterfaceTable

variable {t : InterfaceTable} {p : NodePtr} {n n' : InterfaceNode} {qs : List ServerPtr}

/-- The pointers an interface holds, none when there is no node. -/
def refsAt (t : InterfaceTable) (p : NodePtr) : List ServerPtr :=
  match t.nodes p with
  | some n => n.refs
  | none => []

/-- How often a server entry is referenced, over all interfaces. -/
def total (t : InterfaceTable) (q : ServerPtr) : ℕ :=
  (t.intfHashTable.map fun e => (t.refsAt e.2).count q).sum

theorem refsAt_eq (hp : t.nodes p = some n) : t.refsAt p = n.refs := by
  rw [refsAt, hp]

theorem refsAt_eq_nil (hp : t.nodes p = none) : t.refsAt p = [] := by
  rw [refsAt, hp]

theorem node_eq (hp : t.nodes p = some n) : t.node p = .ok n := by
  rw [node, hp]

/-- The table files exactly the live nodes, each under its own name, and every array is
packed. -/
structure Inv (t : InterfaceTable) : Prop where
  names : (t.intfHashTable.map Prod.fst).Nodup
  listed : ∀ name p,
    (name, p) ∈ t.intfHashTable ↔ ∃ n, t.nodes p = some n ∧ n.portName = name
  packed : ∀ p n, t.nodes p = some n → n.Holds n.refs
  fresh : ∀ p n, t.nodes p = some n → p < t.next

namespace Inv

variable (h : t.Inv)

include h

theorem table_nodup : t.intfHashTable.Nodup := List.Nodup.of_map _ h.names

theorem mem_table (hp : t.nodes p = some n) : (n.portName, p) ∈ t.intfHashTable :=
  (h.listed _ _).mpr ⟨n, hp, rfl⟩

/-- An entry of the table is determined by its node. -/
theorem table_eq_of_snd (hp : t.nodes p = some n) {e : CString × NodePtr}
    (he : e ∈ t.intfHashTable) (hep : e.2 = p) : e = (n.portName, p) := by
  obtain ⟨name, p'⟩ := e
  simp only at hep
  subst hep
  obtain ⟨n', hn', hname⟩ := (h.listed name p').mp he
  rw [hp, Option.some.injEq] at hn'
  rw [← hname, hn']

/-- The pointers filed in the table are distinct. -/
theorem pointers_nodup : (t.intfHashTable.map Prod.snd).Nodup := by
  rw [List.nodup_map_iff_inj_on h.table_nodup]
  intro e he e' he' heq
  obtain ⟨n, hp, hname⟩ := (h.listed e.1 e.2).mp he
  rw [h.table_eq_of_snd hp he rfl, h.table_eq_of_snd hp he' heq.symm]

/-- `shash_find` finds the live node of a name. -/
theorem shashFind_eq_some_iff (name : CString) (p : NodePtr) :
    t.shashFind name = some p ↔ ∃ n, t.nodes p = some n ∧ n.portName = name := by
  rw [← h.listed, shashFind, find?_fst_eq_some_iff h.names]

/-- A pointer that no slot counts is in no array. -/
theorem not_mem_refsAt {q : ServerPtr} (hq : t.total q = 0) (p : NodePtr) :
    q ∉ t.refsAt p := by
  intro hmem
  cases hp : t.nodes p with
  | none =>
    rw [refsAt_eq_nil hp] at hmem
    exact absurd hmem List.not_mem_nil
  | some n =>
    have hcount : (t.refsAt p).count q ∈ t.intfHashTable.map fun e => (t.refsAt e.2).count q :=
      List.mem_map.mpr ⟨(n.portName, p), h.mem_table hp, rfl⟩
    rw [total, List.sum_eq_zero_iff_forall_eq_nat] at hq
    exact absurd (hq _ hcount) (Nat.ne_of_gt (List.count_pos_iff.mpr hmem))

end Inv

/-! ## Changing one node -/

theorem nodes_setNode_self : (t.setNode p n').nodes p = some n' :=
  Function.update_self ..

theorem nodes_setNode_of_ne {p' : NodePtr} (hne : p' ≠ p) :
    (t.setNode p n').nodes p' = t.nodes p' :=
  Function.update_of_ne hne ..

theorem refsAt_setNode_of_ne {p' : NodePtr} (hne : p' ≠ p) :
    (t.setNode p n').refsAt p' = t.refsAt p' := by
  rw [refsAt, refsAt, nodes_setNode_of_ne hne]

/-- A packed node of the same name may replace a node. -/
theorem Inv.setNode (h : t.Inv) (hp : t.nodes p = some n) (hname : n'.portName = n.portName)
    (hholds : n'.Holds qs) : (t.setNode p n').Inv where
  names := h.names
  listed := by
    intro name p'
    rw [show (t.setNode p n').intfHashTable = t.intfHashTable from rfl, h.listed]
    by_cases hpp : p' = p
    · subst hpp
      simp only [hp, nodes_setNode_self, Option.some.injEq, exists_eq_left', hname]
    · rw [nodes_setNode_of_ne hpp]
  packed := by
    intro p' m hm
    by_cases hpp : p' = p
    · subst hpp
      rw [nodes_setNode_self, Option.some.injEq] at hm
      subst hm
      rw [hholds.refs_eq]
      exact hholds
    · rw [nodes_setNode_of_ne hpp] at hm
      exact h.packed p' m hm
  fresh := by
    intro p' m hm
    by_cases hpp : p' = p
    · subst hpp
      exact h.fresh p' n hp
    · rw [nodes_setNode_of_ne hpp] at hm
      exact h.fresh p' m hm

theorem refsAt_setNode_self (hholds : n'.Holds qs) : (t.setNode p n').refsAt p = qs := by
  rw [refsAt_eq nodes_setNode_self, hholds.refs_eq]

/-- The references to an entry after a node was replaced. -/
theorem Inv.total_setNode (h : t.Inv) (hp : t.nodes p = some n) (hholds : n'.Holds qs)
    (q : ServerPtr) :
    (t.setNode p n').total q + n.refs.count q = t.total q + qs.count q := by
  have hsum := @sum_map_update _ _ h.table_nodup _ (h.mem_table hp)
    (fun e => (t.refsAt e.2).count q) (fun e => ((t.setNode p n').refsAt e.2).count q) ?_
  · rw [refsAt_setNode_self hholds, refsAt_eq hp] at hsum
    exact hsum
  · intro e he hne
    rw [refsAt_setNode_of_ne]
    intro hep
    exact hne (h.table_eq_of_snd hp he hep)

/-- A node may be deleted with its entry in the table. -/
theorem Inv.deleteNode (h : t.Inv) (hp : t.nodes p = some n) :
    ((t.shashDelete n.portName p).freeNode p).Inv := by
  set t' := (t.shashDelete n.portName p).freeNode p with ht'
  have hself : t'.nodes p = none := Function.update_self ..
  have hne : ∀ p', p' ≠ p → t'.nodes p' = t.nodes p' :=
    fun p' hp' => Function.update_of_ne hp' ..
  have hlook : ∀ p' m, t'.nodes p' = some m → p' ≠ p ∧ t.nodes p' = some m := by
    intro p' m hm
    by_cases hpp : p' = p
    · rw [hpp, hself] at hm
      exact absurd hm (by simp)
    · rw [hne p' hpp] at hm
      exact ⟨hpp, hm⟩
  refine ⟨h.names.sublist (List.erase_sublist.map _), ?_, ?_, ?_⟩
  · intro name p'
    show (name, p') ∈ t.intfHashTable.erase (n.portName, p) ↔ _
    rw [h.table_nodup.mem_erase_iff, h.listed]
    by_cases hpp : p' = p
    · rw [hpp, hself, hp]
      simp only [Option.some.injEq, exists_eq_left', ne_eq, Prod.mk.injEq, and_true,
        reduceCtorEq, false_and, exists_false, iff_false, not_and]
      exact fun hname heq => hname heq.symm
    · rw [hne p' hpp]
      simp [hpp]
  · intro p' m hm
    exact h.packed p' m (hlook p' m hm).2
  · intro p' m hm
    exact h.fresh p' m (hlook p' m hm).2

theorem Inv.total_deleteNode (h : t.Inv) (hp : t.nodes p = some n) (q : ServerPtr) :
    ((t.shashDelete n.portName p).freeNode p).total q + n.refs.count q = t.total q := by
  have hsum := sum_map_erase (h.mem_table hp) fun e => (t.refsAt e.2).count q
  rw [refsAt_eq hp] at hsum
  rw [total, total, ← hsum]
  congr 2
  show (t.intfHashTable.erase (n.portName, p)).map _ = _
  apply List.map_congr_left
  intro e he
  have hne : e.2 ≠ p := by
    intro heq
    have hmem := h.table_nodup.mem_erase_iff.mp he
    exact hmem.1 (h.table_eq_of_snd hp hmem.2 heq)
  rw [refsAt, refsAt,
    show ((t.shashDelete n.portName p).freeNode p).nodes e.2 = t.nodes e.2 from
      Function.update_of_ne hne ..]

/-! ## Creating a node -/

theorem Inv.nodes_next (h : t.Inv) : t.nodes t.next = none := by
  cases hp : t.nodes t.next with
  | none => rfl
  | some n => exact absurd (h.fresh _ n hp) (Nat.lt_irrefl _)

/-- What a new node looks like. -/
structure Creates (t t' : InterfaceTable) (p : NodePtr) (pname : CString) : Prop where
  inv : t'.Inv
  node : t'.nodes p = some ⟨pname, 0, none⟩
  others : ∀ p', p' ≠ p → t'.nodes p' = t.nodes p'
  absent : t.nodes p = none
  refsAt : t'.refsAt = t.refsAt
  total : ∀ q, t'.total q = t.total q

/-- A name that is not in the table gets a node. -/
theorem Inv.createNode (h : t.Inv) {pname : CString} (habsent : t.shashFind pname = none) :
    Creates t (dhcpv6rCreateIntferfaceNode t pname).2
      (dhcpv6rCreateIntferfaceNode t pname).1 pname := by
  set p := t.next with hp
  set t' := (dhcpv6rCreateIntferfaceNode t pname).2 with ht'
  have hself : t'.nodes p = some ⟨pname, 0, none⟩ := Function.update_self ..
  have hne : ∀ p', p' ≠ p → t'.nodes p' = t.nodes p' :=
    fun p' hp' => Function.update_of_ne hp' ..
  have htable : t'.intfHashTable = t.intfHashTable ++ [(pname, p)] := rfl
  have hnone := h.nodes_next
  -- the new node has no servers
  have hrefs : t'.refsAt = t.refsAt := by
    funext p'
    by_cases hpp : p' = p
    · rw [hpp, refsAt_eq hself, refsAt_eq_nil hnone]
      rfl
    · rw [InterfaceTable.refsAt, InterfaceTable.refsAt, hne p' hpp]
  refine ⟨⟨?_, ?_, ?_, ?_⟩, hself, hne, hnone, hrefs, ?_⟩
  · -- the name was not in the table
    rw [htable, List.map_append, List.nodup_append]
    refine ⟨h.names, by simp, ?_⟩
    intro name hname name' hname' heq
    rw [List.map_singleton, List.mem_singleton] at hname'
    subst heq hname'
    obtain ⟨⟨name', p'⟩, hmem, hfst⟩ := List.mem_map.mp hname
    simp only at hfst
    subst hfst
    have hfind := (h.shashFind_eq_some_iff _ p').mpr ((h.listed _ p').mp hmem)
    rw [habsent] at hfind
    exact absurd hfind (by simp)
  · intro name p'
    rw [htable, List.mem_append, h.listed, List.mem_singleton]
    by_cases hpp : p' = p
    · rw [hpp, hself, hnone]
      simp [Prod.ext_iff, eq_comm]
    · rw [hne p' hpp]
      simp [Prod.ext_iff, hpp]
  · intro p' m hm
    by_cases hpp : p' = p
    · rw [hpp, hself, Option.some.injEq] at hm
      rw [← hm]
      exact InterfaceNode.Holds.of_empty rfl rfl
    · rw [hne p' hpp] at hm
      exact h.packed p' m hm
  · intro p' m hm
    show p' < t.next + 1
    by_cases hpp : p' = p
    · exact hpp ▸ Nat.lt_succ_self _
    · rw [hne p' hpp] at hm
      exact Nat.lt_succ_of_lt (h.fresh p' m hm)
  · intro q
    rw [InterfaceTable.total, InterfaceTable.total, htable, hrefs, List.map_append,
      List.sum_append, List.map_singleton, refsAt_eq_nil hnone]
    simp

end InterfaceTable

end Dhcpv6r
end IpApps
