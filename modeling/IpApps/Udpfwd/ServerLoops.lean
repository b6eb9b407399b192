import IpApps.Udpfwd.CacheSpecs
import IpApps.Udpfwd.ConfigHandlers
import Mathlib.Algebra.Group.Action.Defs
import Mathlib.Algebra.Order.Sub.Unbundled.Basic
import Mathlib.Data.Multiset.AddSub
import Mathlib.Data.Multiset.Filter
import Mathlib.Data.Multiset.UnionInter
import Mathlib.Data.List.TakeWhile

/-!
# The loops of the configuration handlers

The handlers delete and store servers in loops over a collected list. Up to their order
the servers of an interface are a multiset, and a loop of removals subtracts the
collected list from it; a loop of stores appends as much of the list as there is room for.
-/

namespace IpApps
namespace Udpfwd

open ExceptLoops SwapErase

/-! ## The multiset of servers -/

/-- The servers of an interface, up to their order. -/
def State.held (s : State) (p : NodePtr) : Multiset ServerKey := s.keysAt p

section held

variable {s : State} {p : NodePtr}

theorem held_eq_zero_iff : s.held p = 0 ↔ s.keysAt p = [] := by
  rw [State.held, Multiset.coe_eq_zero]

theorem card_held : (s.held p).card = (s.keysAt p).length := by
  rw [State.held, Multiset.coe_card]

theorem mem_held {k : ServerKey} : k ∈ s.held p ↔ k ∈ s.keysAt p := by
  rw [State.held, Multiset.mem_coe]

end held

namespace Touches

variable {s s' s'' : State} {p : NodePtr}

theorem refl (h : Linked s) : Touches s s p :=
  ⟨h, rfl, fun n hn => ⟨n, hn, rfl, rfl, rfl⟩, fun _ _ => ⟨rfl, rfl⟩⟩

theorem trans (h : Touches s s' p) (h' : Touches s' s'' p) : Touches s s'' p := by
  refine ⟨h'.linked, h'.table.trans h.table, ?_, ?_⟩
  · intro n hn
    obtain ⟨n', hn', hname, hgw, hctr⟩ := h.node n hn
    obtain ⟨n'', hn'', hname', hgw', hctr'⟩ := h'.node n' hn'
    exact ⟨n'', hn'', hname'.trans hname, hgw'.trans hgw, hctr'.trans hctr⟩
  · intro p' hne
    exact ⟨(h'.others p' hne).1.trans (h.others p' hne).1,
      (h'.others p' hne).2.trans (h.others p' hne).2⟩

theorem trans_frees {name : CString} (h : Touches s s' p) (h' : Frees s' s'' p name) :
    Frees s s'' p name := by
  refine ⟨by rw [h'.table, h.table], h'.node, ?_⟩
  intro p' hne
  exact ⟨(h'.others p' hne).1.trans (h.others p' hne).1,
    (h'.others p' hne).2.trans (h.others p' hne).2⟩

end Touches

/-! ## The array on the stack -/

theorem foldlM_push_eq {α : Type} (pick : α → Option ServerKey) (xs : List α)
    (servers : List ServerKey)
    (hroom : servers.length + (xs.filterMap pick).length ≤ maxUdpBcastServerPerInterface) :
    xs.foldlM (fun servers x =>
      match pick x with
      | some server => pushServer servers server
      | none => .ok servers) servers = .ok (servers ++ xs.filterMap pick) := by
  induction xs generalizing servers with
  | nil => simp; rfl
  | cons x xs ih =>
    rw [List.foldlM_cons, List.filterMap_cons]
    rw [List.filterMap_cons] at hroom
    cases hx : pick x with
    | none =>
      simp only [hx] at hroom
      exact ih servers hroom
    | some server =>
      simp only [hx, List.length_cons] at hroom
      have hlt : servers.length < maxUdpBcastServerPerInterface := by omega
      have hpush : pushServer servers server = .ok (servers ++ [server]) := if_pos hlt
      show (pushServer servers server >>= _) = _
      rw [hpush, ok_bind, ih]
      · rw [List.append_assoc]
        rfl
      · rw [List.length_append, List.length_singleton]
        omega

theorem foldlM_push_eq_error {α : Type} (pick : α → Option ServerKey) (xs : List α)
    (servers : List ServerKey)
    (hroom : servers.length ≤ maxUdpBcastServerPerInterface)
    (hfull : maxUdpBcastServerPerInterface < servers.length + (xs.filterMap pick).length) :
    xs.foldlM (fun servers x =>
      match pick x with
      | some server => pushServer servers server
      | none => .ok servers) servers = .error .scratchBounds := by
  induction xs generalizing servers with
  | nil => simp at hfull; omega
  | cons x xs ih =>
    rw [List.foldlM_cons]
    rw [List.filterMap_cons] at hfull
    cases hx : pick x with
    | none =>
      simp only [hx] at hfull
      exact ih servers hroom hfull
    | some server =>
      simp only [hx, List.length_cons] at hfull
      show (pushServer servers server >>= _) = _
      by_cases hlt : servers.length < maxUdpBcastServerPerInterface
      · have hpush : pushServer servers server = .ok (servers ++ [server]) := if_pos hlt
        rw [hpush, ok_bind, ih]
        · rw [List.length_append, List.length_singleton]
          omega
        · rw [List.length_append, List.length_singleton]
          omega
      · rw [show pushServer servers server = .error .scratchBounds from if_neg hlt]
        rfl

/-- The walk over entries none of which has a zero address. -/
theorem forEachServer_eq {servers : List ServerKey} (hnonzero : ∀ k ∈ servers, k.1 ≠ 0)
    (body : State → ServerKey → Except Fault State) (s : State) :
    forEachServer servers body s = (servers.foldlM body s >>= fun s =>
      if servers.length = maxUdpBcastServerPerInterface then .error .scratchBounds
      else .ok s) := by
  have hfilled : servers.takeWhile (fun server => decide (server.1 ≠ 0)) = servers := by
    rw [List.takeWhile_eq_self_iff]
    intro k hk
    simpa using hnonzero k hk
  unfold forEachServer
  simp only [hfilled]
  rfl

/-! ## Collecting -/

section collect

variable {s : State} {p : NodePtr} {n : UdpfwdInterfaceNode}

theorem Linked.length_keysAt_le (h : Linked s) (p : NodePtr) :
    (s.keysAt p).length ≤ maxUdpBcastServerPerInterface := by
  rw [h.length_keysAt]
  cases hp : s.nodes p with
  | none =>
    rw [State.refsAt_eq_nil hp]
    exact Nat.zero_le _
  | some n =>
    rw [State.refsAt_eq hp]
    exact (h.holds p n hp).bound

/-- The array is large enough for all servers of an interface. -/
theorem collectServers_eq (h : Linked s) (hp : s.nodes p = some n)
    (pick : ServerKey → Option ServerKey) :
    collectServers s n pick = .ok ((s.keysAt p).filterMap pick) := by
  unfold collectServers
  rw [h.addrCount_eq hp, State.keysAt, List.length_map]
  refine (foldlM_range_eq (fun servers r =>
    match pick (UdpfwdServer.key r) with
    | some server => pushServer servers server
    | none => .ok servers) (h.slotServer_eq hp) []).trans ?_
  rw [foldlM_push_eq fun r => pick (UdpfwdServer.key r)]
  · rw [List.nil_append, List.filterMap_map]
    rfl
  · have hle := List.length_filterMap_le (fun r => pick (UdpfwdServer.key r)) (s.serversAt p)
    have hbound := h.length_keysAt_le p
    rw [State.keysAt, List.length_map] at hbound
    rw [List.length_nil, Nat.zero_add]
    exact Nat.le_trans hle hbound

/-- Whether some server of an interface satisfies a test. -/
theorem anySlot_eq (h : Linked s) (hp : s.nodes p = some n) (test : ServerKey → Bool) :
    (List.range n.addrCount).anyM (fun iter => do return test (← s.slotServer n iter).key)
      = .ok ((s.keysAt p).any test) := by
  rw [h.addrCount_eq hp, State.keysAt, List.length_map, List.any_map]
  exact anyM_range_eq (fun r => test (UdpfwdServer.key r)) (h.slotServer_eq hp)

/-- The addresses of a row that parse, in the order of the row. -/
def validAddresses (addresses : List CString) : List IpAddress :=
  addresses.filterMap serverAddress

theorem ne_zero_of_mem_validAddresses {addresses : List CString} {id : IpAddress}
    (h : id ∈ validAddresses addresses) : id ≠ 0 := by
  obtain ⟨address, _, hid⟩ := List.mem_filterMap.mp h
  unfold serverAddress at hid
  cases haton : Libc.inetAton address with
  | none => simp [haton] at hid
  | some a =>
    by_cases ha : a = 0
    · simp [haton, ha] at hid
    · simp [haton, ha] at hid
      rwa [← hid]

theorem serverIpExists_iff (serverIp : IpAddress) (servers : List CString) :
    serverIpExists serverIp servers = true ↔ serverIp ∈ validAddresses servers := by
  simp [serverIpExists, validAddresses, List.mem_filterMap]

/-- The servers a row adds to an interface that holds `held`. -/
def newServers (held : Multiset ServerKey) (addresses : List CString)
    (listed : IpAddress → ServerKey → Bool) (udpPort : UInt16) : List ServerKey :=
  ((validAddresses addresses).filter fun id => decide (∀ k ∈ held, ¬listed id k)).map
    fun id => (id, udpPort)

theorem ne_zero_of_mem_newServers {held : Multiset ServerKey} {addresses : List CString}
    {listed : IpAddress → ServerKey → Bool} {udpPort : UInt16} {k : ServerKey}
    (h : k ∈ newServers held addresses listed udpPort) : k.1 ≠ 0 := by
  obtain ⟨id, hid, rfl⟩ := List.mem_map.mp h
  exact ne_zero_of_mem_validAddresses (List.mem_of_mem_filter hid)

theorem length_newServers_le (held : Multiset ServerKey) (addresses : List CString)
    (listed : IpAddress → ServerKey → Bool) (udpPort : UInt16) :
    (newServers held addresses listed udpPort).length ≤ addresses.length := by
  rw [newServers, List.length_map]
  exact Nat.le_trans (List.length_filter_le _ _) (List.length_filterMap_le _ _)

/-- Collecting the new servers of a row, on a live interface. -/
theorem collectNewServers_eq (h : Linked s) (hp : s.nodes p = some n)
    (addresses : List CString) (listed : IpAddress → ServerKey → Bool) (udpPort : UInt16) :
    collectNewServers s p addresses listed udpPort =
      if (newServers (s.held p) addresses listed udpPort).length ≤ maxUdpBcastServerPerInterface
      then .ok (newServers (s.held p) addresses listed udpPort)
      else .error .scratchBounds := by
  -- what one pass of the loop makes of an address
  set pick : CString → Option ServerKey := fun address =>
    ((serverAddress address).filter fun id => decide (∀ k ∈ s.held p, ¬listed id k)).map
      fun id => (id, udpPort) with hpick
  have hnew : newServers (s.held p) addresses listed udpPort = addresses.filterMap pick := by
    rw [newServers, validAddresses, List.filter_filterMap, List.map_filterMap]
  unfold collectNewServers
  trans addresses.foldlM (fun servers x =>
    match pick x with
    | some server => pushServer servers server
    | none => .ok servers) []
  · apply foldlM_congr
    intro servers address
    cases haddr : serverAddress address with
    | none =>
      simp only [hpick, haddr]
      rfl
    | some id =>
      show (s.node p >>= _) = _
      rw [s.node_eq_ok hp, ok_bind, anySlot_eq h hp (listed id), ok_bind]
      have hfound : decide (∀ k ∈ s.held p, ¬listed id k) = !(s.keysAt p).any (listed id) := by
        rw [Bool.eq_iff_iff, decide_eq_true_iff]
        simp [mem_held]
      simp only [hpick, haddr, Option.filter_some, hfound]
      cases (s.keysAt p).any (listed id) <;> rfl
  · rw [hnew]
    split
    · rw [foldlM_push_eq pick addresses []]
      · rfl
      · rwa [List.length_nil, Nat.zero_add]
    · rw [foldlM_push_eq_error pick addresses [] (Nat.zero_le _)]
      rw [List.length_nil, Nat.zero_add]
      omega

/-- On a freed node the first address that parses reads the node. -/
theorem collectNewServers_freed (hp : s.nodes p = none) (addresses : List CString)
    (listed : IpAddress → ServerKey → Bool) (udpPort : UInt16) :
    collectNewServers s p addresses listed udpPort =
      if validAddresses addresses = [] then .ok [] else .error .freedNode := by
  unfold collectNewServers
  induction addresses with
  | nil => rfl
  | cons address addresses ih =>
    rw [List.foldlM_cons, validAddresses, List.filterMap_cons]
    cases haddr : serverAddress address with
    | none => exact ih
    | some id =>
      rw [if_neg (List.cons_ne_nil _ _), s.node_eq_error hp]
      rfl

end collect

/-! ## Removing -/

section remove

variable {s : State} {p : NodePtr} {n : UdpfwdInterfaceNode}

/-- Deleting the servers of a list, no longer than the list of the interface, empties the
interface or leaves the difference. -/
theorem foldlM_remove_eq (servers : List ServerKey) : ∀ {s : State} {n : UdpfwdInterfaceNode},
    CacheInv s → s.nodes p = some n → servers.length ≤ (s.keysAt p).length →
    (n.bootpGw = 0 ∧ s.held p ≠ 0 ∧ s.held p - servers = 0 ∧
      ∃ s', servers.foldlM (fun s server => do
          return (← udpfwdRemoveAddress s p server.1 server.2).2) s = .ok s' ∧
        CacheInv s' ∧ Frees s s' p n.portName) ∨
    (¬(n.bootpGw = 0 ∧ s.held p ≠ 0 ∧ s.held p - servers = 0) ∧
      ∃ s', servers.foldlM (fun s server => do
          return (← udpfwdRemoveAddress s p server.1 server.2).2) s = .ok s' ∧
        CacheInv s' ∧ Touches s s' p ∧ s'.held p = s.held p - servers) := by
  induction servers with
  | nil =>
    intro s n h hp _
    refine Or.inr ⟨?_, s, rfl, h, Touches.refl h.linked, ?_⟩
    · intro hcase
      exact hcase.2.1 (by simpa using hcase.2.2)
    · simp
  | cons k servers ih =>
    intro s n h hp hlen
    rw [List.length_cons] at hlen
    have hsub : s.held p - ((k :: servers : List ServerKey) : Multiset ServerKey)
        = (s.held p).erase k - (servers : Multiset ServerKey) := by
      rw [← Multiset.cons_coe, Multiset.sub_cons]
    rw [hsub]
    cases hidx : (s.keysAt p).idxOf? (k.1, k.2) with
    | none =>
      -- the server is not listed and nothing happens
      have hk : k ∉ s.keysAt p := List.idxOf?_eq_none_iff.mp hidx
      have hrun := udpfwdRemoveAddress_absent h.linked hp hk
      have herase : (s.held p).erase k = s.held p :=
        Multiset.erase_of_notMem (by rwa [mem_held])
      rw [herase, List.foldlM_cons, hrun]
      exact ih h hp (by omega)
    | some index =>
      obtain ⟨hlt, hkey, _⟩ := List.idxOf?_eq_some_iff.mp hidx
      by_cases hstay : (s.keysAt p).length ≠ 1 ∨ n.bootpGw ≠ 0
      · obtain ⟨s₁, hrun, hinv, htouch, hkeys⟩ := udpfwdRemoveAddress_eq h hp hidx hstay
        obtain ⟨n₁, hp₁, hname, hgw, _⟩ := htouch.node n hp
        have herase : s₁.held p = (s.held p).erase k := by
          have hperm := perm_cons_swapErase (s.keysAt p) index hlt
          rw [← hkeys, hkey] at hperm
          have hheld : s.held p = k ::ₘ s₁.held p := Multiset.coe_eq_coe.mpr hperm
          rw [hheld, Multiset.erase_cons_head]
        have hlen₁ : servers.length ≤ (s₁.keysAt p).length := by
          rw [hkeys, length_swapErase]
          omega
        -- unless there is a gateway, a second server is left
        have hcase : (n.bootpGw = 0 ∧ s.held p ≠ 0 ∧
            (s.held p).erase k - (servers : Multiset ServerKey) = 0) ↔
            (n₁.bootpGw = 0 ∧ s₁.held p ≠ 0 ∧ s₁.held p - (servers : Multiset ServerKey) = 0) := by
          rw [hgw, herase]
          refine and_congr_right fun hzero => and_congr_left fun _ => ?_
          have hlen' := hstay.resolve_right (not_not_intro hzero)
          rw [← herase, Ne, Ne, held_eq_zero_iff, held_eq_zero_iff, hkeys,
            ← List.length_eq_zero_iff, ← List.length_eq_zero_iff, length_swapErase]
          omega
        rw [List.foldlM_cons, hrun]
        rcases ih hinv hp₁ hlen₁ with hfreed | hlive
        · obtain ⟨h₁, h₂, h₃, s', hrun', hinv', hfrees⟩ := hfreed
          obtain ⟨hc₁, hc₂, hc₃⟩ := hcase.mpr ⟨h₁, h₂, h₃⟩
          rw [hname] at hfrees
          exact Or.inl ⟨hc₁, hc₂, hc₃, s', hrun', hinv', htouch.trans_frees hfrees⟩
        · obtain ⟨hnot, s', hrun', hinv', htouch', hheld'⟩ := hlive
          rw [herase] at hheld'
          exact Or.inr ⟨fun hc => hnot (hcase.mp hc), s', hrun', hinv', htouch.trans htouch',
            hheld'⟩
      · -- the last server of an interface without a gateway, so the list ends here
        have hlast : (s.keysAt p).length = 1 ∧ n.bootpGw = 0 := by
          by_contra hnot
          exact hstay (by tauto)
        have hnil : servers = [] := List.eq_nil_of_length_eq_zero (by omega)
        obtain ⟨k', hk'⟩ := List.length_eq_one_iff.mp hlast.1
        simp only [hk', List.getElem_singleton] at hkey
        have hkeys : s.keysAt p = [k] := by rw [hk', hkey]
        obtain ⟨s', hrun, hinv, hfrees⟩ := udpfwdRemoveAddress_last h hp hkeys hlast.2
        refine Or.inl ⟨hlast.2, ?_, ?_, s', ?_, hinv, hfrees⟩
        · rw [Ne, held_eq_zero_iff, hkeys]
          exact List.cons_ne_nil _ _
        · rw [hnil, State.held, hkeys]
          simp
        · rw [List.foldlM_cons, hrun, hnil]
          rfl

end remove

/-! ## Storing -/

section store

variable {p : NodePtr}

/-- A cache of so few interfaces that no server can get more references than its counter
holds. -/
def State.FewInterfaces (s : State) : Prop :=
  maxUdpBcastServerPerInterface * s.intfHashTable.length ≤ 65535

theorem Linked.refTotal_le {s : State} (h : Linked s) (hfew : s.FewInterfaces) (q : ServerPtr) :
    s.refTotal q ≤ 65535 := by
  refine Nat.le_trans (s.refTotal_le q) (Nat.le_trans ?_ hfew)
  have hsum := List.sum_le_card_nsmul (s.intfHashTable.map fun e => (s.refsAt e.2).length)
    maxUdpBcastServerPerInterface ?_
  · rw [List.length_map, smul_eq_mul, Nat.mul_comm] at hsum
    exact hsum
  · intro len hlen
    obtain ⟨e, _, rfl⟩ := List.mem_map.mp hlen
    rw [← h.length_keysAt]
    exact h.length_keysAt_le e.2

/-- Storing the servers of a list appends as many of them as there is room for. -/
theorem foldlM_store_eq (servers : List ServerKey) : ∀ {s : State} {n : UdpfwdInterfaceNode},
    Linked s → s.nodes p = some n →
    ∃ s', servers.foldlM (fun s server => do
        return (← udpfwdStoreAddress s p server.1 server.2).2) s = .ok s' ∧
      Touches s s' p ∧
      s'.keysAt p = s.keysAt p ++
        servers.take (maxUdpBcastServerPerInterface - (s.keysAt p).length) ∧
      (s.FewInterfaces → Counted s → Counted s') := by
  induction servers with
  | nil =>
    intro s n h hp
    exact ⟨s, rfl, Touches.refl h, by simp, fun _ hc => hc⟩
  | cons k servers ih =>
    intro s n h hp
    rw [List.foldlM_cons]
    have hcount := h.addrCount_eq hp
    by_cases hfull : maxUdpBcastServerPerInterface ≤ n.addrCount
    · rw [udpfwdStoreAddress_full hp hfull]
      have hzero : maxUdpBcastServerPerInterface - (s.keysAt p).length = 0 := by omega
      obtain ⟨s', hrun, htouch, hkeys, hcounted⟩ := ih h hp
      refine ⟨s', hrun, htouch, ?_, hcounted⟩
      rw [hkeys, hzero, List.take_zero, List.take_zero]
    · obtain ⟨s₁, hrun, htouch, hkeys, hcounted⟩ :=
        udpfwdStoreAddress_eq h hp (Nat.lt_of_not_le hfull) k.1 k.2
      obtain ⟨n₁, hp₁, _⟩ := htouch.node n hp
      obtain ⟨s', hrun', htouch', hkeys', hcounted'⟩ := ih htouch.linked hp₁
      refine ⟨s', ?_, htouch.trans htouch', ?_, ?_⟩
      · rw [hrun]
        exact hrun'
      · have hroom : maxUdpBcastServerPerInterface - (s.keysAt p).length
            = maxUdpBcastServerPerInterface - (s₁.keysAt p).length + 1 := by
          rw [hkeys, List.length_append, List.length_singleton]
          omega
        rw [hkeys', hroom, List.take_succ_cons, hkeys, List.append_assoc]
        rfl
      · intro hfew hc
        have hfew₁ : s₁.FewInterfaces := by
          rw [State.FewInterfaces, htouch.table]
          exact hfew
        exact hcounted' hfew₁ (hcounted hc (htouch.linked.refTotal_le hfew₁))

end store

/-! ## Replacing -/

section replace

variable {s : State} {p : NodePtr} {n : UdpfwdInterfaceNode}

/-- Whether deleting `gone` takes the last server of an interface without a gateway. -/
def Emptied (bootpGw : IpAddress) (held gone : Multiset ServerKey) : Prop :=
  bootpGw = 0 ∧ held ≠ 0 ∧ held - gone = 0

instance (bootpGw : IpAddress) (held gone : Multiset ServerKey) :
    Decidable (Emptied bootpGw held gone) :=
  inferInstanceAs (Decidable (_ ∧ _ ∧ _))

/-- The removal phase: a full array is walked past its end, and otherwise the node is
freed or keeps the difference. -/
theorem removeServers_eq (h : CacheInv s) (hp : s.nodes p = some n) {gone : List ServerKey}
    (hnonzero : ∀ k ∈ gone, k.1 ≠ 0) (hlen : gone.length ≤ (s.keysAt p).length) :
    (gone.length = maxUdpBcastServerPerInterface ∧
      removeServers p gone s = .error .scratchBounds) ∨
    (gone.length < maxUdpBcastServerPerInterface ∧ Emptied n.bootpGw (s.held p) gone ∧
      ∃ s', removeServers p gone s = .ok s' ∧ CacheInv s' ∧ Frees s s' p n.portName) ∨
    (gone.length < maxUdpBcastServerPerInterface ∧ ¬Emptied n.bootpGw (s.held p) gone ∧
      ∃ s', removeServers p gone s = .ok s' ∧ CacheInv s' ∧ Touches s s' p ∧
        s'.held p = s.held p - gone) := by
  have hle := Nat.le_trans hlen (h.linked.length_keysAt_le p)
  unfold removeServers
  rw [forEachServer_eq hnonzero]
  by_cases hfull : gone.length = maxUdpBcastServerPerInterface
  · refine Or.inl ⟨hfull, ?_⟩
    rcases foldlM_remove_eq gone h hp hlen with ⟨_, _, _, s', hrun, _⟩ | ⟨_, s', hrun, _⟩
    · rw [hrun, ok_bind, if_pos hfull]
    · rw [hrun, ok_bind, if_pos hfull]
  · right
    have hlt : gone.length < maxUdpBcastServerPerInterface := by omega
    rcases foldlM_remove_eq gone h hp hlen with ⟨h₁, h₂, h₃, s', hrun, hfreed⟩ | hlive
    · refine Or.inl ⟨hlt, ⟨h₁, h₂, h₃⟩, s', ?_, hfreed⟩
      rw [hrun, ok_bind, if_neg hfull]
    · obtain ⟨hnot, s', hrun, hstays⟩ := hlive
      refine Or.inr ⟨hlt, hnot, s', ?_, hstays⟩
      rw [hrun, ok_bind, if_neg hfull]

/-- The store phase. -/
theorem storeServers_eq (h : Linked s) (hp : s.nodes p = some n) {new : List ServerKey}
    (hnonzero : ∀ k ∈ new, k.1 ≠ 0) (hlen : new.length ≤ maxUdpBcastServerPerInterface) :
    (new.length = maxUdpBcastServerPerInterface ∧
      storeServers p new s = .error .scratchBounds) ∨
    (new.length < maxUdpBcastServerPerInterface ∧
      ∃ s', storeServers p new s = .ok s' ∧ Touches s s' p ∧
        s'.held p = s.held p + (new.take (maxUdpBcastServerPerInterface - (s.held p).card) :
          List ServerKey) ∧
        (s.FewInterfaces → Counted s → Counted s')) := by
  unfold storeServers
  rw [forEachServer_eq hnonzero]
  obtain ⟨s', hrun, htouch, hkeys, hcounted⟩ := foldlM_store_eq new h hp
  by_cases hfull : new.length = maxUdpBcastServerPerInterface
  · refine Or.inl ⟨hfull, ?_⟩
    rw [hrun, ok_bind, if_pos hfull]
  · refine Or.inr ⟨by omega, s', ?_, htouch, ?_, hcounted⟩
    · rw [hrun, ok_bind, if_neg hfull]
    · rw [card_held, State.held, hkeys]
      rfl

/-- What `replaceServers` does. The servers `gone` are those the interface loses, and
`new` those it gains up to the limit of its array. -/
inductive Replaces (s : State) (p : NodePtr) (n : UdpfwdInterfaceNode)
    (gone : List ServerKey) (addresses : List CString) (new : List ServerKey) :
    Except Fault State → Prop
  /-- Sixteen servers are to be removed: the array has no terminator. -/
  | manyGone : gone.length = maxUdpBcastServerPerInterface →
      Replaces s p n gone addresses new (.error .scratchBounds)
  /-- The node was freed and is read again. -/
  | readFreed : gone.length < maxUdpBcastServerPerInterface →
      Emptied n.bootpGw (s.held p) gone → validAddresses addresses ≠ [] →
      Replaces s p n gone addresses new (.error .freedNode)
  /-- The node was freed, and the row has nothing to add. -/
  | freed {s' : State} : gone.length < maxUdpBcastServerPerInterface →
      Emptied n.bootpGw (s.held p) gone → validAddresses addresses = [] →
      CacheInv s' → Frees s s' p n.portName → Replaces s p n gone addresses new (.ok s')
  /-- Sixteen servers or more are to be added. -/
  | manyNew : gone.length < maxUdpBcastServerPerInterface →
      ¬Emptied n.bootpGw (s.held p) gone → maxUdpBcastServerPerInterface ≤ new.length →
      Replaces s p n gone addresses new (.error .scratchBounds)
  | stored {s' : State} : gone.length < maxUdpBcastServerPerInterface →
      ¬Emptied n.bootpGw (s.held p) gone → new.length < maxUdpBcastServerPerInterface →
      Touches s s' p →
      s'.held p = s.held p - gone +
        (new.take (maxUdpBcastServerPerInterface - (s.held p - gone).card) : List ServerKey) →
      (s.FewInterfaces → Counted s') → Replaces s p n gone addresses new (.ok s')

theorem replaceServers_eq (h : CacheInv s) (hp : s.nodes p = some n)
    (hnonzero : ∀ k ∈ s.held p, k.1 ≠ 0) {stale : ServerKey → Option ServerKey}
    (hstale : ∀ k k', stale k = some k' → k'.1 = k.1) (addresses : List CString)
    (listed : IpAddress → ServerKey → Bool) (udpPort : UInt16) :
    Replaces s p n ((s.keysAt p).filterMap stale) addresses
      (newServers (s.held p - ((s.keysAt p).filterMap stale : List ServerKey)) addresses listed
        udpPort)
      (replaceServers s p addresses stale listed udpPort) := by
  set gone := (s.keysAt p).filterMap stale with hgone
  have hgonezero : ∀ k ∈ gone, k.1 ≠ 0 := by
    intro k' hk'
    obtain ⟨k, hk, hpick⟩ := List.mem_filterMap.mp hk'
    rw [hstale k k' hpick]
    exact hnonzero k (mem_held.mpr hk)
  have hgonelen : gone.length ≤ (s.keysAt p).length := List.length_filterMap_le _ _
  have hunfold : replaceServers s p addresses stale listed udpPort = (removeServers p gone s >>=
      fun s => collectNewServers s p addresses listed udpPort >>= fun new =>
        storeServers p new s) := by
    unfold replaceServers
    rw [s.node_eq_ok hp, ok_bind, collectServers_eq h.linked hp, ok_bind]
  rw [hunfold]
  rcases removeServers_eq h hp hgonezero hgonelen with hfull | hfreed | hstays
  · obtain ⟨hlen, hrun⟩ := hfull
    rw [hrun]
    exact .manyGone hlen
  · -- the node is gone; it is read again if there is an address to store
    obtain ⟨hlen, hempty, s', hrun, hinv, hfrees⟩ := hfreed
    rw [hrun, ok_bind, collectNewServers_freed hfrees.node]
    split
    · exact .freed hlen hempty (by assumption) hinv hfrees
    · exact .readFreed hlen hempty (by assumption)
  · -- the node stays, and takes the new servers into its free slots
    obtain ⟨hlen, hempty, s₁, hrun, hinv, htouch, hheld⟩ := hstays
    obtain ⟨n₁, hp₁, _⟩ := htouch.node n hp
    rw [hrun, ok_bind, collectNewServers_eq htouch.linked hp₁, hheld]
    set new := newServers (s.held p - gone) addresses listed udpPort with hnew
    split
    · rename_i hle
      rw [ok_bind]
      rcases storeServers_eq htouch.linked hp₁
        (fun k hk => ne_zero_of_mem_newServers hk) hle with ⟨hfull, hrun'⟩ | hstored
      · rw [hrun']
        exact .manyNew hlen hempty (Nat.le_of_eq hfull.symm)
      · obtain ⟨hlt, s', hrun', htouch', hheld', hcounted⟩ := hstored
        rw [hrun']
        refine .stored hlen hempty hlt (htouch.trans htouch') ?_ ?_
        · rw [hheld', hheld]
        · intro hfew
          refine hcounted ?_ hinv.counted
          rw [State.FewInterfaces, htouch.table]
          exact hfew
    · rename_i hgt
      exact .manyNew hlen hempty (by omega)

end replace

end Udpfwd
end IpApps
