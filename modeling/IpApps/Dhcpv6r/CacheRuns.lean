import IpApps.Dhcpv6r.ServerCache

/-!
# Runs of the DHCPv6 server cache

The states that sequences of store and remove calls reach from the empty tables. The cache
stays consistent as long as no counter overflows and every removal finds the server it was
asked for first: `compare_server` takes a server for each one that it is a beginning of, so
that a removal may unlink another server, and look for its entry under the wrong hash.
-/

namespace IpApps
namespace Dhcpv6r

open ExceptLoops SwapErase
open scoped List

/-! ## Operations -/

/-- The operations of the cache, on the pointers their callers pass. -/
inductive CacheOp
  | create (pname : CString)
  | store (intfNode : NodePtr) (ipv6Address : CString) (egressIfName : Option CString)
  | remove (intfNode : NodePtr) (ipv6Address : CString) (egressIfName : Option CString)

namespace CacheOp

/-- What the callers guarantee: a new name is not in the table yet, and a pointer is that
of a live node. -/
def Callable (s : State) : CacheOp → Prop
  | create pname => s.intfs.shashFind pname = none
  | store intfNode _ _ => (s.intfs.nodes intfNode).isSome
  | remove intfNode _ _ => (s.intfs.nodes intfNode).isSome

def run (ovs : Ovs) (s : State) : CacheOp → Except Fault State
  | create pname => .ok ⟨s.servers, (dhcpv6rCreateIntferfaceNode s.intfs pname).2⟩
  | store intfNode ipv6Address egressIfName => do
    return (← dhcpv6rStoreAddress ovs s intfNode ipv6Address egressIfName).2
  | remove intfNode ipv6Address egressIfName => do
    return (← dhcpv6rRemoveAddress ovs s intfNode ipv6Address egressIfName).2

/-- A store finds an entry whose counter has room, or none. The first server of the
interface that a removal takes for the requested one is that server, if there is any. -/
def Plain (ovs : Ovs) (s : State) : CacheOp → Prop
  | create _ => True
  | store intfNode ipv6Address egressIfName =>
    (s.keysAt intfNode).length < maxServersPerInterface →
      ∀ q ∈ (dhcpv6rGetServerEntry ovs s.servers ipv6Address egressIfName).toOption.join,
        s.servers.refs q < 65535
  | remove intfNode ipv6Address egressIfName =>
    ∀ k ∈ (s.keysAt intfNode).find? (·.begins (ipv6Address, egressIfName)),
      k = (ipv6Address, egressIfName)

instance (s : State) (op : CacheOp) : Decidable (op.Callable s) :=
  match op with
  | create _ => inferInstanceAs (Decidable (_ = _))
  | store _ _ _ => inferInstanceAs (Decidable (_ = _))
  | remove _ _ _ => inferInstanceAs (Decidable (_ = _))

instance (ovs : Ovs) (s : State) (op : CacheOp) : Decidable (op.Plain ovs s) :=
  match op with
  | create _ => inferInstanceAs (Decidable True)
  | store _ _ _ => inferInstanceAs (Decidable (_ → _))
  | remove _ _ _ => inferInstanceAs (Decidable (∀ k ∈ List.find? _ _, _))

end CacheOp

/-- The states of all runs whose operations are plain. -/
inductive Reachable (ovs : Ovs) : State → Prop
  | init : Reachable ovs State.empty
  | step {s s' : State} (op : CacheOp) : Reachable ovs s → op.Callable s → op.Plain ovs s →
      op.run ovs s = .ok s' → Reachable ovs s'

/-- Runs a list of operations, as long as each may be called and is plain. -/
def runCalls (ovs : Ovs) : State → List CacheOp → Option State
  | s, [] => some s
  | s, op :: ops =>
    if op.Callable s ∧ op.Plain ovs s then
      match op.run ovs s with
      | .error _ => none
      | .ok s' => runCalls ovs s' ops
    else none

theorem Reachable.runCalls {ovs : Ovs} (ops : List CacheOp) :
    ∀ {s s' : State}, Reachable ovs s → runCalls ovs s ops = some s' → Reachable ovs s' := by
  induction ops with
  | nil =>
    intro s s' h hrun
    obtain rfl := Option.some.inj hrun
    exact h
  | cons op ops ih =>
    intro s s' h hrun
    unfold Dhcpv6r.runCalls at hrun
    split at hrun
    · rename_i hmay
      cases hstep : op.run ovs s with
      | error e =>
        rw [hstep] at hrun
        exact absurd hrun (by simp)
      | ok s₁ =>
        rw [hstep] at hrun
        exact ih (.step op h hmay.1 hmay.2 hstep) hrun
    · exact absurd hrun (by simp)

/-! ## Each operation keeps the invariant -/

section step

variable {ovs : Ovs} {s : State} {p : NodePtr} {n : InterfaceNode}

/-- A plain store runs to its end and keeps the invariant. -/
theorem storeAddress_plain (h : CacheInv ovs s) (hp : s.intfs.nodes p = some n) (k : ServerKey)
    (hplain : (CacheOp.store p k.1 k.2).Plain ovs s) :
    ∃ stored s', dhcpv6rStoreAddress ovs s p k.1 k.2 = .ok (stored, s') ∧ CacheInv ovs s' := by
  by_cases hroom : (s.keysAt p).length < maxServersPerInterface
  · obtain ⟨q, s', k', hrun, hstores⟩ := dhcpv6rStoreAddress_eq h hp hroom k
    refine ⟨true, s', hrun, hstores.inv ?_⟩
    cases hq : s.servers.keyOf q with
    | none =>
      rw [ServerMap.refs_eq_zero hq]
      omega
    | some k₀ =>
      have hfound := hstores.found (by rw [hq]; simp)
      apply hplain hroom
      rw [hfound]
      rfl
  · refine ⟨false, s, dhcpv6rStoreAddress_full hp ?_ k, h⟩
    rw [h.addrCount_eq hp]
    omega

/-- What a successful removal of the server `k` is to do: one slot with exactly this server
is closed, and if an entry leaves the map, it is the server's, filed under its own hash. -/
structure Unlinks (ovs : Ovs) (s s' : State) (p : NodePtr) (k : ServerKey) : Prop where
  server : s.keysAt p ~ k :: s'.keysAt p
  map : s'.servers.serverHashMap = s.servers.serverHashMap ∨
    ∃ q, s.servers.keyOf q = some k ∧
      s'.servers.serverHashMap = s.servers.serverHashMap.erase (k.hash ovs, q)

/-- A plain removal runs to its end and unlinks what it was asked for, or nothing. -/
theorem removeAddress_plain (h : CacheInv ovs s) (hp : s.intfs.nodes p = some n) (k : ServerKey)
    (hplain : (CacheOp.remove p k.1 k.2).Plain ovs s) :
    dhcpv6rRemoveAddress ovs s p k.1 k.2 = .ok (false, s) ∨
      ∃ s', dhcpv6rRemoveAddress ovs s p k.1 k.2 = .ok (true, s') ∧ CacheInv ovs s' ∧
        Unlinks ovs s s' p k := by
  cases hk : (s.keysAt p).findIdx? (·.begins k) with
  | none => exact Or.inl (dhcpv6rRemoveAddress_absent h hp hk)
  | some index =>
    obtain ⟨hlt, q, hq, hkey, _⟩ := dhcpv6rRemoveServerRefEntry_eq h hp hk
    -- the first server that is found is the requested one
    have hsame : (s.keysAt p)[index] = k := by
      apply hplain
      obtain ⟨_, hbegins, hfirst⟩ := List.findIdx?_eq_some_iff_getElem.mp hk
      exact List.find?_eq_some_iff_getElem.mpr ⟨hbegins, index, hlt, rfl,
        fun j hj => by simpa using hfirst j hj⟩
    rw [hsame] at hkey
    obtain ⟨s', hrun, hrem⟩ := dhcpv6rRemoveAddress_eq h hp hk hq hkey fun _ => rfl
    refine Or.inr ⟨s', hrun, hrem.inv, ?_, ?_⟩
    · rw [hrem.keys]
      exact hsame ▸ perm_cons_swapErase _ index hlt
    · rw [hrem.map]
      split
      · exact Or.inr ⟨q, hkey, rfl⟩
      · exact Or.inl rfl

/-- A plain operation that its caller may make runs to its end and keeps the invariant. -/
theorem CacheOp.run_eq (h : CacheInv ovs s) (op : CacheOp) (hcall : op.Callable s)
    (hplain : op.Plain ovs s) : ∃ s', op.run ovs s = .ok s' ∧ CacheInv ovs s' := by
  cases op with
  | create pname =>
    have hnew := h.intfs.createNode hcall
    refine ⟨_, rfl, h.servers, hnew.inv, fun q => ?_⟩
    exact (h.counted q).trans (hnew.total q).symm
  | store p ip egress =>
    obtain ⟨n, hp⟩ := Option.isSome_iff_exists.mp hcall
    obtain ⟨stored, s', hrun, hinv⟩ := storeAddress_plain h hp (ip, egress) hplain
    refine ⟨s', ?_, hinv⟩
    rw [CacheOp.run, hrun]
    rfl
  | remove p ip egress =>
    obtain ⟨n, hp⟩ := Option.isSome_iff_exists.mp hcall
    rcases removeAddress_plain h hp (ip, egress) hplain with hrun | ⟨s', hrun, hinv, _⟩
    · refine ⟨s, ?_, h⟩
      rw [CacheOp.run, hrun]
      rfl
    · refine ⟨s', ?_, hinv⟩
      rw [CacheOp.run, hrun]
      rfl

end step

/-! ## Runs -/

theorem Reachable.cacheInv {ovs : Ovs} {s : State} (h : Reachable ovs s) : CacheInv ovs s := by
  induction h with
  | init => exact CacheInv.empty ovs
  | step op _ hcall hplain hrun ih =>
    obtain ⟨s', hrun', hinv⟩ := CacheOp.run_eq ih op hcall hplain
    rw [hrun] at hrun'
    obtain rfl := Except.ok.inj hrun'
    exact hinv

/-- What the map and the arrays of the cache say, entry by entry and slot by slot. -/
structure Consistent (s : State) : Prop where
  /-- At most one entry of the map is a given server. -/
  oneEntry : ∀ k, s.servers.serverHashMap.countP (fun e => s.servers.keyOf e.2 = some k) ≤ 1
  /-- Every entry of the map is referenced, and counts the slots that point to it. -/
  refCount : ∀ e ∈ s.servers.serverHashMap, ∃ r, s.servers.entries e.2 = some r ∧
    0 < r.refCount.toNat ∧ r.refCount.toNat = s.intfs.total e.2
  /-- The used slots of an interface point to entries of the map. -/
  slots : ∀ p n, s.intfs.nodes p = some n → ∀ i < n.addrCount, ∃ hashKey q r,
    n.slot i = .ok q ∧ s.servers.entries q = some r ∧ (hashKey, q) ∈ s.servers.serverHashMap

theorem CacheInv.consistent {ovs : Ovs} {s : State} (h : CacheInv ovs s) : Consistent s := by
  refine ⟨?_, ?_, ?_⟩
  · intro k
    rw [List.countP_eq_length_filter]
    have hnodup := h.servers.filedOnce.filter fun e => s.servers.keyOf e.2 = some k
    -- two such entries are one: they have one pointer and one hash
    have hone : ∀ e ∈ s.servers.serverHashMap.filter (fun e => s.servers.keyOf e.2 = some k),
        ∀ e' ∈ s.servers.serverHashMap.filter (fun e => s.servers.keyOf e.2 = some k),
          e = e' := by
      intro ⟨hv, q⟩ he ⟨hv', q'⟩ he'
      obtain ⟨hmem, hkey⟩ := List.mem_filter.mp he
      obtain ⟨hmem', hkey'⟩ := List.mem_filter.mp he'
      rw [decide_eq_true_iff] at hkey hkey'
      obtain ⟨k₁, hk₁, rfl⟩ := (h.servers.filed hv q).mp hmem
      obtain ⟨k₂, hk₂, rfl⟩ := (h.servers.filed hv' q').mp hmem'
      obtain rfl := Option.some.inj (hk₁.symm.trans hkey)
      obtain rfl := Option.some.inj (hk₂.symm.trans hkey')
      rw [h.servers.unique q q' _ hk₁ hk₂]
    exact length_le_one_of_nodup hnodup hone
  · intro e he
    obtain ⟨k, hk, _⟩ := (h.servers.filed e.1 e.2).mp he
    obtain ⟨r, hr, _⟩ := ServerMap.keyOf_eq_some_iff.mp hk
    have hcount : s.servers.refs e.2 = r.refCount.toNat := by rw [ServerMap.refs, hr]
    refine ⟨r, hr, ?_, ?_⟩
    · rw [← hcount]
      exact h.servers.positive e.2 k hk
    · rw [← hcount]
      exact h.counted e.2
  · intro p n hp i hi
    rw [h.addrCount_eq hp] at hi
    obtain ⟨q, hslot, _, hkey⟩ := h.slot_eq hp hi
    obtain ⟨r, hr, _⟩ := ServerMap.keyOf_eq_some_iff.mp hkey
    exact ⟨_, q, r, hslot, hr, (h.servers.filed _ q).mpr ⟨_, hkey, rfl⟩⟩

/-- In every run of plain operations the cache is consistent, the next plain operation runs
to its end, and if it is a successful removal, it unlinks exactly the requested server. -/
theorem reachable_servers_consistent {ovs : Ovs} {s : State} (h : Reachable ovs s) :
    Consistent s ∧
      (∀ op : CacheOp, op.Callable s → op.Plain ovs s → ∃ s', op.run ovs s = .ok s') ∧
      (∀ p ipv6Address egressIfName s',
        (CacheOp.remove p ipv6Address egressIfName).Callable s →
        (CacheOp.remove p ipv6Address egressIfName).Plain ovs s →
        dhcpv6rRemoveAddress ovs s p ipv6Address egressIfName = .ok (true, s') →
        Unlinks ovs s s' p (ipv6Address, egressIfName)) := by
  have hinv := h.cacheInv
  refine ⟨hinv.consistent, ?_, ?_⟩
  · intro op hcall hplain
    obtain ⟨s', hrun, _⟩ := CacheOp.run_eq hinv op hcall hplain
    exact ⟨s', hrun⟩
  · intro p ip egress s' hcall hplain hrun
    obtain ⟨n, hp⟩ := Option.isSome_iff_exists.mp hcall
    rcases removeAddress_plain hinv hp (ip, egress) hplain with hrun' | ⟨s'', hrun', _, hunlinks⟩
    · rw [hrun] at hrun'
      simp at hrun'
    · rw [hrun] at hrun'
      obtain ⟨_, rfl⟩ := Prod.mk.inj (Except.ok.inj hrun')
      exact hunlinks

/-- Hash functions and a walk order for examples. -/
def exampleOvs : Ovs where
  hashString s basis := s.foldl (fun hash c => 31 * hash + c.val) basis
  hash2words x y := 31 * x + y
  bucketOrder := id
  bucketOrder_perm := fun bucket => List.Perm.refl bucket

/-- The cache after a list of operations on the empty tables. -/
def Cache.ofCalls (ops : List CacheOp) (s : State)
    (hrun : runCalls exampleOvs State.empty ops = some s) : Cache exampleOvs where
  state := s
  inv := (Reachable.init.runCalls ops hrun).cacheInv

/-- Two interfaces share a server, one of them has another one with an egress interface,
and drops the first. -/
theorem reachable_servers_consistent_shared :
    ∃ s, Reachable exampleOvs s ∧ s.keysAt 0 = [("ff02::1:2".toList, some "3".toList)] ∧
      s.keysAt 1 = [("2001:db8::1".toList, none)] ∧ Consistent s := by
  have h : Reachable exampleOvs _ := Reachable.init.runCalls
    [.create "1".toList, .create "2".toList, .store 0 "2001:db8::1".toList none,
      .store 1 "2001:db8::1".toList none, .store 0 "ff02::1:2".toList (some "3".toList),
      .remove 0 "2001:db8::1".toList none] rfl
  exact ⟨_, h, by decide, by decide, (reachable_servers_consistent h).1⟩

/-- Two interfaces share the server `2001:db8::1`. The removal of `2001:db8::12` from the
first unlinks it; the second such removal, which drops the last reference, looks for the
entry under the wrong hash. -/
theorem removal_unlinks_beginning :
    ∃ s s', Reachable exampleOvs s ∧ s.keysAt 0 = [("2001:db8::1".toList, none)] ∧
      dhcpv6rRemoveAddress exampleOvs s 0 "2001:db8::12".toList none = .ok (true, s') ∧
      ¬Unlinks exampleOvs s s' 0 ("2001:db8::12".toList, none) ∧
      (s'.intfs.nodes 1).isSome ∧
      dhcpv6rRemoveAddress exampleOvs s' 1 "2001:db8::12".toList none = .error .notFiled := by
  have h : Reachable exampleOvs _ := Reachable.init.runCalls
    [.create "1".toList, .create "2".toList, .store 0 "2001:db8::1".toList none,
      .store 1 "2001:db8::1".toList none] rfl
  refine ⟨_, _, h, by decide, rfl, ?_, rfl, rfl⟩
  intro hunlinks
  have hmem := hunlinks.server.mem_iff.mpr List.mem_cons_self
  exact absurd hmem (by decide)

end Dhcpv6r
end IpApps
