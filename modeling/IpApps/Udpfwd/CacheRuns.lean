import IpApps.Udpfwd.CacheSpecs

/-!
# Runs of the server cache

The states reachable from the empty tables through any sequence of the cache's
operations, and the invariant of all of them.
-/

namespace IpApps
namespace Udpfwd

open ExceptLoops SwapErase
open scoped List

/-! ## Operations -/

/-- The operations of the cache, on the pointers their callers pass. -/
inductive CacheOp
  | create (pname : CString)
  | store (intfNode : NodePtr) (ipaddress : IpAddress) (udpPort : UInt16)
  | remove (intfNode : NodePtr) (ipaddress : IpAddress) (udpPort : UInt16)
  /-- `intfNode->bootp_gw = gw`. -/
  | setBootpGw (intfNode : NodePtr) (gw : IpAddress)

/-- What the callers of an operation guarantee: a new name is not in the table yet, and
the pointer is that of a live node. -/
def CacheOp.Callable (s : State) : CacheOp → Prop
  | .create pname => s.shashFind pname = none
  | .store intfNode _ _ => ∃ n, s.nodes intfNode = some n
  | .remove intfNode _ _ => ∃ n, s.nodes intfNode = some n
  | .setBootpGw intfNode _ => ∃ n, s.nodes intfNode = some n

def CacheOp.run (s : State) : CacheOp → Except Fault State
  | .create pname => .ok (udpfwdCreateIntferfaceNode s pname).2
  | .store intfNode ipaddress udpPort => do
    return (← udpfwdStoreAddress s intfNode ipaddress udpPort).2
  | .remove intfNode ipaddress udpPort => do
    return (← udpfwdRemoveAddress s intfNode ipaddress udpPort).2
  | .setBootpGw intfNode gw => do
    return s.setNode intfNode { (← s.node intfNode) with bootpGw := gw }

/-- The states of all runs from the empty tables in which no server gets more than 65535
references. -/
inductive Reachable (hashInt : UInt32 → UInt32 → UInt32) : State → Prop
  | init : Reachable hashInt (State.empty hashInt)
  | step {s s' : State} (op : CacheOp) : Reachable hashInt s → op.Callable s →
      op.run s = .ok s' → (∀ q, s'.refTotal q ≤ 65535) → Reachable hashInt s'

instance (s : State) (op : CacheOp) : Decidable (op.Callable s) :=
  match op with
  | .create _ => inferInstanceAs (Decidable (_ = _))
  | .store intfNode _ _ => decidable_of_iff (s.nodes intfNode).isSome Option.isSome_iff_exists
  | .remove intfNode _ _ => decidable_of_iff (s.nodes intfNode).isSome Option.isSome_iff_exists
  | .setBootpGw intfNode _ => decidable_of_iff (s.nodes intfNode).isSome Option.isSome_iff_exists

/-- Runs a list of operations, as long as each may be called and the references of all
servers together are few enough for one counter. -/
def runCalls : State → List CacheOp → Option State
  | s, [] => some s
  | s, op :: ops =>
    if op.Callable s then
      match op.run s with
      | .error _ => none
      | .ok s' =>
        if (s'.intfHashTable.map fun e => (s'.refsAt e.2).length).sum ≤ 65535
        then runCalls s' ops else none
    else none

theorem Reachable.runCalls {hashInt : UInt32 → UInt32 → UInt32} (ops : List CacheOp) :
    ∀ {s s' : State}, Reachable hashInt s → runCalls s ops = some s' → Reachable hashInt s' := by
  induction ops with
  | nil =>
    intro s s' h hrun
    rw [Udpfwd.runCalls, Option.some.injEq] at hrun
    exact hrun ▸ h
  | cons op ops ih =>
    intro s s' h hrun
    unfold Udpfwd.runCalls at hrun
    split at hrun
    · rename_i hcall
      split at hrun
      · exact absurd hrun (by simp)
      · rename_i s₁ hstep
        split at hrun
        · rename_i hsum
          exact ih (.step op h hcall hstep fun q => Nat.le_trans (s₁.refTotal_le q) hsum) hrun
        · exact absurd hrun (by simp)
    · exact absurd hrun (by simp)

/-! ## Each operation keeps the invariant -/

section step

variable {s s' : State} {p : NodePtr} {n : UdpfwdInterfaceNode}

/-- What a removal returns, whether or not the server is listed. -/
theorem udpfwdRemoveAddress_cases (h : CacheInv s) (hp : s.nodes p = some n)
    (ipaddress : IpAddress) (udpPort : UInt16) :
    (udpfwdRemoveAddress s p ipaddress udpPort = .ok (false, s) ∧
      (ipaddress, udpPort) ∉ s.keysAt p) ∨
    (∃ s', udpfwdRemoveAddress s p ipaddress udpPort = .ok (true, s') ∧ CacheInv s' ∧
      s.keysAt p ~ (ipaddress, udpPort) :: s'.keysAt p ∧
      ∀ p', p' ≠ p → s'.nodes p' = s.nodes p' ∧ s'.keysAt p' = s.keysAt p') := by
  cases hidx : (s.keysAt p).idxOf? (ipaddress, udpPort) with
  | none =>
    have hk := List.idxOf?_eq_none_iff.mp hidx
    exact Or.inl ⟨udpfwdRemoveAddress_absent h.linked hp hk, hk⟩
  | some index =>
    obtain ⟨hlt, hkey, _⟩ := List.idxOf?_eq_some_iff.mp hidx
    by_cases hstay : (s.keysAt p).length ≠ 1 ∨ n.bootpGw ≠ 0
    · obtain ⟨s', hrun, hinv, htouch, hkeys⟩ := udpfwdRemoveAddress_eq h hp hidx hstay
      refine Or.inr ⟨s', hrun, hinv, ?_, htouch.others⟩
      rw [hkeys, ← hkey]
      exact perm_cons_swapErase _ index hlt
    · have hlast : (s.keysAt p).length = 1 ∧ n.bootpGw = 0 := by
        by_contra hnot
        exact hstay (by tauto)
      obtain ⟨k, hk⟩ := List.length_eq_one_iff.mp hlast.1
      have hkeys : s.keysAt p = [(ipaddress, udpPort)] := by
        rw [hk, ← hkey]
        simp only [hk, List.getElem_singleton]
      obtain ⟨s', hrun, hinv, hfrees⟩ := udpfwdRemoveAddress_last h hp hkeys hlast.2
      refine Or.inr ⟨s', hrun, hinv, ?_, hfrees.others⟩
      rw [hkeys, State.keysAt_eq, State.refsAt_eq_nil hfrees.node]
      exact List.Perm.refl _

/-- What storing returns, whether or not there is room. -/
theorem udpfwdStoreAddress_cases (h : Linked s) (hp : s.nodes p = some n)
    (ipaddress : IpAddress) (udpPort : UInt16) :
    ∃ stored s', udpfwdStoreAddress s p ipaddress udpPort = .ok (stored, s') ∧ Linked s' ∧
      (Counted s → (∀ q, s'.refTotal q ≤ 65535) → Counted s') := by
  by_cases hfull : maxUdpBcastServerPerInterface ≤ n.addrCount
  · exact ⟨false, s, udpfwdStoreAddress_full hp hfull ipaddress udpPort, h, fun hc _ => hc⟩
  · obtain ⟨s', hrun, htouch, _, hcounted⟩ :=
      udpfwdStoreAddress_eq h hp (Nat.lt_of_not_le hfull) ipaddress udpPort
    exact ⟨true, s', hrun, htouch.linked, hcounted⟩

/-- An operation that its caller may make runs to its end and keeps the invariant. -/
theorem CacheOp.run_eq (h : CacheInv s) (op : CacheOp) (hcall : op.Callable s) :
    ∃ s', op.run s = .ok s' ∧ ((∀ q, s'.refTotal q ≤ 65535) → CacheInv s') := by
  cases op with
  | create pname =>
    obtain ⟨p, s', hrun, hlinked, _, hcounted⟩ := udpfwdCreateIntferfaceNode_eq h.linked hcall
    refine ⟨s', ?_, fun _ => ⟨hlinked, hcounted h.counted⟩⟩
    rw [CacheOp.run, hrun]
  | store p ipaddress udpPort =>
    obtain ⟨n, hp⟩ := hcall
    obtain ⟨stored, s', hrun, hlinked, hcounted⟩ :=
      udpfwdStoreAddress_cases h.linked hp ipaddress udpPort
    refine ⟨s', ?_, fun hbound => ⟨hlinked, hcounted h.counted hbound⟩⟩
    rw [CacheOp.run, hrun]
    rfl
  | remove p ipaddress udpPort =>
    obtain ⟨n, hp⟩ := hcall
    rcases udpfwdRemoveAddress_cases h hp ipaddress udpPort with ⟨hrun, _⟩ | hremoved
    · refine ⟨s, ?_, fun _ => h⟩
      rw [CacheOp.run, hrun]
      rfl
    · obtain ⟨s', hrun, hinv, _⟩ := hremoved
      refine ⟨s', ?_, fun _ => hinv⟩
      rw [CacheOp.run, hrun]
      rfl
  | setBootpGw p gw =>
    obtain ⟨n, hp⟩ := hcall
    obtain ⟨hlinked, _, hcounted⟩ := setBootpGw_eq h.linked hp gw
    refine ⟨s.setNode p { n with bootpGw := gw }, ?_,
      fun _ => ⟨hlinked, hcounted h.counted⟩⟩
    rw [CacheOp.run, s.node_eq_ok hp]
    rfl

end step

/-! ## Runs -/

theorem Reachable.cacheInv {hashInt : UInt32 → UInt32 → UInt32} {s : State}
    (h : Reachable hashInt s) : CacheInv s := by
  induction h with
  | init => exact CacheInv.empty hashInt
  | step op _ hcall hrun hbound ih =>
    obtain ⟨s', hrun', hinv⟩ := CacheOp.run_eq ih op hcall
    rw [hrun, Except.ok.injEq] at hrun'
    subst hrun'
    exact hinv hbound

/-- What the tables and the arrays of the cache say, entry by entry and slot by slot. -/
structure Consistent (s : State) : Prop where
  /-- At most one entry of the map is a given server. -/
  oneEntry : ∀ k, s.serverHashMap.countP (fun e => (s.servers e.2).any (·.key = k)) ≤ 1
  /-- Every entry of the map is referenced, and counts the slots that point to it. -/
  refCount : ∀ e ∈ s.serverHashMap, ∃ r, s.servers e.2 = some r ∧ 0 < r.refCount.toNat ∧
    r.refCount.toNat = s.refTotal e.2
  /-- The used slots of an interface point to entries of the map. -/
  slots : ∀ p n, s.nodes p = some n → ∀ i < n.addrCount, ∃ hashVal q,
    n.slot i = .ok q ∧ (hashVal, q) ∈ s.serverHashMap
  addrCount : ∀ p n, s.nodes p = some n → n.addrCount ≤ 16
  array : ∀ p n, s.nodes p = some n → (n.serverArray = none ↔ n.addrCount = 0)

theorem CacheInv.consistent {s : State} (h : CacheInv s) : Consistent s := by
  obtain ⟨hl, hc⟩ := h
  refine ⟨?_, ?_, ?_, ?_, ?_⟩
  · intro k
    rw [List.countP_eq_length_filter]
    refine length_le_one_of_nodup (hl.filedOnce.filter _) ?_
    intro ⟨hv, q⟩ he ⟨hv', q'⟩ he'
    obtain ⟨hmem, hkey⟩ := List.mem_filter.mp he
    obtain ⟨hmem', hkey'⟩ := List.mem_filter.mp he'
    obtain ⟨r, hr, hhash⟩ := (hl.filed hv q).mp hmem
    obtain ⟨r', hr', hhash'⟩ := (hl.filed hv' q').mp hmem'
    have hrk : r.key = k := by simpa [hr] using hkey
    have hrk' : r'.key = k := by simpa [hr'] using hkey'
    -- both entries are the server `k`, so they are one entry
    have hq : q = q' := hl.unique q q' r r' hr hr' (hrk.trans hrk'.symm)
    subst hq
    rw [hr, Option.some.injEq] at hr'
    rw [hhash, hhash', hr']
  · intro e he
    obtain ⟨r, hr, _⟩ := (hl.filed e.1 e.2).mp he
    exact ⟨r, hr, hc.positive e.2 r hr, hc.total e.2 r hr⟩
  · intro p n hp i hi
    have hholds := hl.holds p n hp
    have hlt : i < n.refs.length := by rwa [← hholds.count]
    obtain ⟨r, hr⟩ := hl.live p n.refs[i] (by
      rw [State.refsAt_eq hp]
      exact List.getElem_mem hlt)
    exact ⟨_, n.refs[i], hholds.slot_eq i hlt, (hl.filed _ _).mpr ⟨r, hr, rfl⟩⟩
  · intro p n hp
    have hholds := hl.holds p n hp
    rw [hholds.count]
    exact hholds.bound
  · intro p n hp
    have hholds := hl.holds p n hp
    rw [hholds.count, List.length_eq_zero_iff]
    rcases hholds.array with ⟨hnil, harr⟩ | ⟨hne, unused, _, harr⟩
    · simp only [hnil, harr]
    · simp only [hne, harr, reduceCtorEq]

/-- In every reachable state the cache is consistent, every operation its callers may make
runs to its end, and a successful removal drops exactly one slot. -/
theorem reachable_cache_consistent {hashInt : UInt32 → UInt32 → UInt32} {s : State}
    (h : Reachable hashInt s) :
    Consistent s ∧
      (∀ op : CacheOp, op.Callable s → ∃ s', op.run s = .ok s') ∧
      (∀ p n ipaddress udpPort s', s.nodes p = some n →
        udpfwdRemoveAddress s p ipaddress udpPort = .ok (true, s') →
        s.keysAt p ~ (ipaddress, udpPort) :: s'.keysAt p ∧
        ∀ p', p' ≠ p → s'.nodes p' = s.nodes p' ∧ s'.keysAt p' = s.keysAt p') := by
  have hinv := h.cacheInv
  refine ⟨hinv.consistent, ?_, ?_⟩
  · intro op hcall
    obtain ⟨s', hrun, _⟩ := CacheOp.run_eq hinv op hcall
    exact ⟨s', hrun⟩
  · intro p n ipaddress udpPort s' hp hrun
    rcases udpfwdRemoveAddress_cases hinv hp ipaddress udpPort with ⟨hrun', _⟩ | hremoved
    · rw [hrun] at hrun'
      simp at hrun'
    · obtain ⟨s'', hrun', _, hperm, hothers⟩ := hremoved
      rw [hrun, Except.ok.injEq, Prod.mk.injEq] at hrun'
      obtain ⟨_, rfl⟩ := hrun'
      exact ⟨hperm, hothers⟩

/-- Two interfaces share a server, and one of them drops it. -/
theorem reachable_cache_consistent_shared :
    ∃ s, Reachable (fun a port => a ^^^ port) s ∧ s.keysAt 1 = [(10, 67)] ∧
      s.serverHashMap.length = 1 ∧ Consistent s := by
  have h : Reachable (fun a port => a ^^^ port) _ := Reachable.init.runCalls
    [.create ['1'], .store 0 10 67, .create ['2'], .store 1 10 67, .remove 0 10 67] rfl
  exact ⟨_, h, by decide, by decide, (reachable_cache_consistent h).1⟩

end Udpfwd
end IpApps
