import IpApps.Udpfwd.CacheInvariant

/-!
# What the cache operations do

For each function of the cache one lemma says what it returns and what it changes; the
invariant is part of every conclusion. Later files never unfold the functions.
-/

namespace IpApps
namespace Udpfwd

open ExceptLoops SwapErase

/-! ## Taking and dropping a reference -/

section refs

variable {s : State}

/-- An entry may be replaced by one of the same server. -/
theorem Linked.setServer (h : Linked s) {q : ServerPtr} {r r' : UdpfwdServer}
    (hr : s.servers q = some r) (hkey : r'.key = r.key) : Linked (s.setServer q r') := by
  have hself : (s.setServer q r').servers q = some r' := Function.update_self ..
  have hne : ∀ q', q' ≠ q → (s.setServer q r').servers q' = s.servers q' :=
    fun q' hq' => Function.update_of_ne hq' ..
  have hip : r'.ipAddress = r.ipAddress ∧ r'.udpPort = r.udpPort := by
    simpa [UdpfwdServer.key] using hkey
  -- every server was there before, under the same key
  have hlook : ∀ q' x, (s.setServer q r').servers q' = some x →
      ∃ y, s.servers q' = some y ∧ y.key = x.key := by
    intro q' x hx
    by_cases hqq : q' = q
    · subst hqq
      rw [hself, Option.some.injEq] at hx
      exact ⟨r, hr, by rw [← hx, hkey]⟩
    · rw [hne q' hqq] at hx
      exact ⟨x, hx, rfl⟩
  refine ⟨h.names, h.listed, h.holds, ?_, ?_, h.filedOnce, ?_, h.freshNode, ?_⟩
  · intro p q' hq'
    by_cases hqq : q' = q
    · subst hqq
      exact ⟨r', hself⟩
    · rw [hne q' hqq]
      exact h.live p q' hq'
  · intro hv q'
    rw [show (s.setServer q r').serverHashMap = s.serverHashMap from rfl, h.filed]
    by_cases hqq : q' = q
    · subst hqq
      simp only [hr, hself, Option.some.injEq, exists_eq_left', hip]
      rfl
    · rw [hne q' hqq]
      rfl
  · intro q₁ q₂ r₁ r₂ h₁ h₂ hk
    obtain ⟨y₁, hy₁, hk₁⟩ := hlook q₁ r₁ h₁
    obtain ⟨y₂, hy₂, hk₂⟩ := hlook q₂ r₂ h₂
    exact h.unique q₁ q₂ y₁ y₂ hy₁ hy₂ (by rw [hk₁, hk₂, hk])
  · intro q' x hx
    obtain ⟨y, hy, _⟩ := hlook q' x hx
    exact h.freshServer q' y hy

/-- What `takeServerRef` does: the entry `q` is live afterwards and counts one reference
more than before, a new entry counting from zero. -/
structure TakesRef (s s' : State) (q : ServerPtr) (k : ServerKey) : Prop where
  linked : Linked s'
  nodes : s'.nodes = s.nodes
  table : s'.intfHashTable = s.intfHashTable
  hash : s'.hashInt = s.hashInt
  others : ∀ q', q' ≠ q → s'.servers q' = s.servers q'
  key : ∀ r, s.servers q = some r → r.key = k
  entry : ∃ r', s'.servers q = some r' ∧ r'.key = k ∧
    r'.refCount = (match s.servers q with | some r => r.refCount | none => 0) + 1

/-- A new entry under its hash, for a server that has none. -/
theorem udpfwdAddServerEntry_linked (h : Linked s) {ipaddress : IpAddress} {udpPort : UInt16}
    (hnone : ∀ q r, s.servers q = some r → r.key ≠ (ipaddress, udpPort))
    (hfresh : s.servers s.nextServer = none) :
    Linked (udpfwdAddServerEntry s ipaddress udpPort).2 := by
  set q := s.nextServer with hq
  set r' : UdpfwdServer := ⟨ipaddress, udpPort, 1⟩ with hr'
  set s' := (udpfwdAddServerEntry s ipaddress udpPort).2 with hs'
  have hself : s'.servers q = some r' := Function.update_self ..
  have hne : ∀ q', q' ≠ q → s'.servers q' = s.servers q' :=
    fun q' hq' => Function.update_of_ne hq' ..
  have hmap : s'.serverHashMap
      = (s.hashInt ipaddress udpPort.toUInt32, q) :: s.serverHashMap := rfl
  refine ⟨h.names, h.listed, h.holds, ?_, ?_, ?_, ?_, h.freshNode, ?_⟩
  · -- no pointer of a node is to the new entry
    intro p q' hq'
    by_cases hqq : q' = q
    · subst hqq
      exact ⟨r', hself⟩
    · rw [hne q' hqq]
      exact h.live p q' hq'
  · intro hv q'
    rw [hmap, List.mem_cons]
    by_cases hqq : q' = q
    · rw [hqq, hself]
      constructor
      · intro hcase
        rcases hcase with hhead | hmem
        · exact ⟨r', rfl, congrArg Prod.fst hhead⟩
        · obtain ⟨r, hr, _⟩ := (h.filed hv q).mp hmem
          rw [hfresh] at hr
          exact absurd hr (by simp)
      · intro hcase
        obtain ⟨r, hr, hhash⟩ := hcase
        rw [Option.some.injEq] at hr
        subst hr
        exact Or.inl (by rw [hhash]; rfl)
    · rw [hne q' hqq, h.filed]
      constructor
      · intro hcase
        rcases hcase with hhead | hmem
        · exact absurd (congrArg Prod.snd hhead) hqq
        · exact hmem
      · exact fun hmem => Or.inr hmem
  · rw [hmap, List.nodup_cons]
    refine ⟨?_, h.filedOnce⟩
    intro hmem
    obtain ⟨r, hr, _⟩ := (h.filed _ q).mp hmem
    rw [hfresh] at hr
    exact absurd hr (by simp)
  · intro q₁ q₂ r₁ r₂ h₁ h₂ hk
    by_cases hq₁ : q₁ = q
    · by_cases hq₂ : q₂ = q
      · rw [hq₁, hq₂]
      · subst hq₁
        rw [hself, Option.some.injEq] at h₁
        rw [hne q₂ hq₂] at h₂
        subst h₁
        exact absurd hk.symm (hnone q₂ r₂ h₂)
    · rw [hne q₁ hq₁] at h₁
      by_cases hq₂ : q₂ = q
      · subst hq₂
        rw [hself, Option.some.injEq] at h₂
        subst h₂
        exact absurd hk (hnone q₁ r₁ h₁)
      · rw [hne q₂ hq₂] at h₂
        exact h.unique q₁ q₂ r₁ r₂ h₁ h₂ hk
  · intro q' x hx
    show q' < s.nextServer + 1
    by_cases hqq : q' = q
    · exact hqq ▸ Nat.lt_succ_self _
    · rw [hne q' hqq] at hx
      exact Nat.lt_succ_of_lt (h.freshServer q' x hx)

theorem takeServerRef_eq (h : Linked s) (ipaddress : IpAddress) (udpPort : UInt16) :
    ∃ q s', takeServerRef s ipaddress udpPort = .ok (q, s') ∧
      TakesRef s s' q (ipaddress, udpPort) := by
  obtain ⟨found, hget, hsome, hnone⟩ := udpfwdGetServerEntry_eq h ipaddress udpPort
  cases found with
  | some q =>
    -- the server has an entry: count one more reference
    obtain ⟨r, hr, hkey⟩ := hsome q rfl
    set r' : UdpfwdServer := { r with refCount := r.refCount + 1 } with hr'
    have hself : (s.setServer q r').servers q = some r' := Function.update_self ..
    have hne : ∀ q', q' ≠ q → (s.setServer q r').servers q' = s.servers q' :=
      fun q' hq' => Function.update_of_ne hq' ..
    refine ⟨q, s.setServer q r', ?_, ⟨h.setServer hr rfl, rfl, rfl, rfl, hne, ?_, r', hself,
      hkey, ?_⟩⟩
    · unfold takeServerRef
      rw [hget]
      show (s.server q >>= fun server => _) = _
      rw [s.server_eq_ok hr]
      rfl
    · intro x hx
      rw [hr, Option.some.injEq] at hx
      rw [← hx, hkey]
    · rw [hr]
  | none =>
    -- no entry yet: add one under its hash
    have hfresh : s.servers s.nextServer = none := by
      cases hq : s.servers s.nextServer with
      | none => rfl
      | some r => exact absurd (h.freshServer _ r hq) (Nat.lt_irrefl _)
    have hlinked := udpfwdAddServerEntry_linked h (hnone rfl) hfresh
    refine ⟨s.nextServer, (udpfwdAddServerEntry s ipaddress udpPort).2, ?_, ⟨hlinked, rfl, rfl,
      rfl, fun q' hq' => Function.update_of_ne hq' .., ?_, _, Function.update_self .., rfl, ?_⟩⟩
    · unfold takeServerRef
      rw [hget]
      rfl
    · intro r hr
      rw [hfresh] at hr
      exact absurd hr (by simp)
    · rw [hfresh]
      rfl

end refs

/-! ## Storing an address -/

section store

variable {s s' : State} {p : NodePtr}

/-- The servers of an interface depend on its pointers and the keys behind them only. -/
theorem State.keysAt_congr {p' : NodePtr} (hrefs : s'.refsAt p' = s.refsAt p)
    (hkeys : ∀ q ∈ s.refsAt p,
      (s'.servers q).map UdpfwdServer.key = (s.servers q).map UdpfwdServer.key) :
    s'.keysAt p' = s.keysAt p := by
  rw [State.keysAt_eq, State.keysAt_eq, hrefs]
  exact List.filterMap_congr hkeys

theorem Linked.refTotal_eq_zero (h : Linked s) {q : ServerPtr} (hq : s.servers q = none) :
    s.refTotal q = 0 := by
  rw [State.refTotal, List.sum_eq_zero_iff_forall_eq_nat]
  intro c hc
  obtain ⟨e, _, rfl⟩ := List.mem_map.mp hc
  rw [List.count_eq_zero]
  intro hmem
  obtain ⟨r, hr⟩ := h.live e.2 q hmem
  rw [hq] at hr
  exact absurd hr (by simp)

/-- What a change of the servers of one live interface leaves alone. -/
structure Touches (s s' : State) (p : NodePtr) : Prop where
  linked : Linked s'
  table : s'.intfHashTable = s.intfHashTable
  node : ∀ n, s.nodes p = some n → ∃ n', s'.nodes p = some n' ∧ n'.portName = n.portName ∧
    n'.bootpGw = n.bootpGw ∧ n'.dhcpRelayPktCounters = n.dhcpRelayPktCounters
  others : ∀ p', p' ≠ p → s'.nodes p' = s.nodes p' ∧ s'.keysAt p' = s.keysAt p'

/-- A full interface refuses the address. -/
theorem udpfwdStoreAddress_full {n : UdpfwdInterfaceNode} (hp : s.nodes p = some n)
    (hfull : maxUdpBcastServerPerInterface ≤ n.addrCount) (ipaddress : IpAddress)
    (udpPort : UInt16) : udpfwdStoreAddress s p ipaddress udpPort = .ok (false, s) := by
  unfold udpfwdStoreAddress
  rw [s.node_eq_ok hp]
  show (if maxUdpBcastServerPerInterface ≤ n.addrCount then _ else _) = _
  rw [if_pos hfull]
  rfl

/-- The array, allocated now when the interface had none. -/
theorem UdpfwdInterfaceNode.Holds.allocated_eq {n : UdpfwdInterfaceNode} (h : n.Holds n.refs) :
    let n₁ : UdpfwdInterfaceNode :=
      if n.serverArray = none then
        { n with
          addrCount := 0
          serverArray := some (List.replicate maxUdpBcastServerPerInterface none) }
      else n
    n₁.addrCount = n.refs.length ∧ n₁.portName = n.portName ∧ n₁.bootpGw = n.bootpGw ∧
      n₁.dhcpRelayPktCounters = n.dhcpRelayPktCounters ∧
      ∃ unused, n.refs.length + unused.length = maxUdpBcastServerPerInterface ∧
        n₁.serverArray = some (n.refs.map some ++ unused) := by
  intro n₁
  rcases h.array with ⟨hnil, harr⟩ | ⟨_, unused, hlen, harr⟩
  · have hn₁ : n₁ = { n with
        addrCount := 0
        serverArray := some (List.replicate maxUdpBcastServerPerInterface none) } := if_pos harr
    rw [hn₁, hnil]
    exact ⟨rfl, rfl, rfl, rfl, List.replicate maxUdpBcastServerPerInterface none, by simp, rfl⟩
  · have hn₁ : n₁ = n := if_neg (by rw [harr]; simp)
    rw [hn₁]
    exact ⟨h.count, rfl, rfl, rfl, unused, hlen, harr⟩

/-- The counters stay right if the slots point once more to the entry that was taken. -/
theorem TakesRef.counted {s₁ : State} {q : ServerPtr} {k : ServerKey} (ht : TakesRef s s₁ q k)
    (h : Linked s) (hc : Counted s) (hservers : s'.servers = s₁.servers)
    (htotal : ∀ q', s'.refTotal q' = s.refTotal q' + [q].count q')
    (hbound : ∀ q', s'.refTotal q' ≤ 65535) : Counted s' := by
  obtain ⟨r', hr', -, hcnt'⟩ := ht.entry
  have hcase : ∀ q' r, s'.servers q' = some r →
      0 < r.refCount.toNat ∧ r.refCount.toNat = s'.refTotal q' := by
    intro q' r hr
    have ht' := htotal q'
    rw [hservers] at hr
    by_cases hqq : q' = q
    · -- the stored server: one reference more than before
      subst hqq
      rw [hr', Option.some.injEq] at hr
      subst hr
      rw [List.count_singleton_self] at ht'
      cases hq : s.servers q' with
      | some r₀ =>
        rw [hq] at hcnt'
        have hlt := hbound q'
        have htot₀ := hc.total q' r₀ hq
        have hnat : r'.refCount.toNat = r₀.refCount.toNat + 1 := by
          have hsmall : r₀.refCount.toNat + 1 < 65536 := by omega
          rw [hcnt', UInt16.toNat_add]
          exact Nat.mod_eq_of_lt hsmall
        omega
      | none =>
        rw [hq] at hcnt'
        have htot₀ := h.refTotal_eq_zero hq
        have hnat : r'.refCount.toNat = 1 := by
          rw [hcnt']
          rfl
        omega
    · rw [List.count_singleton, if_neg (by simpa using fun hq => hqq hq.symm)] at ht'
      rw [ht.others q' hqq] at hr
      have hpos := hc.positive q' r hr
      have htot₀ := hc.total q' r hr
      omega
  exact ⟨fun q' r hr => (hcase q' r hr).1, fun q' r hr => (hcase q' r hr).2⟩

/-- An interface with room takes the server into its next slot. -/
theorem udpfwdStoreAddress_eq {n : UdpfwdInterfaceNode} (h : Linked s)
    (hp : s.nodes p = some n) (hroom : n.addrCount < maxUdpBcastServerPerInterface)
    (ipaddress : IpAddress) (udpPort : UInt16) :
    ∃ s', udpfwdStoreAddress s p ipaddress udpPort = .ok (true, s') ∧ Touches s s' p ∧
      s'.keysAt p = s.keysAt p ++ [(ipaddress, udpPort)] ∧
      (Counted s → (∀ q, s'.refTotal q ≤ 65535) → Counted s') := by
  have hholds := h.holds p n hp
  -- the array, allocated now when the interface had none
  set n₁ : UdpfwdInterfaceNode :=
    if n.serverArray = none then
      { n with
        addrCount := 0
        serverArray := some (List.replicate maxUdpBcastServerPerInterface none) }
    else n with hn₁
  obtain ⟨hcount₁, hname₁, hgw₁, hctr₁, unused, hlen, harr₁⟩ := hholds.allocated_eq
  obtain ⟨q, s₁, htake, ht⟩ := takeServerRef_eq h ipaddress udpPort
  obtain ⟨n₂, hset, hname₂, hgw₂, hctr₂, _, hholds₂⟩ :=
    UdpfwdInterfaceNode.Holds.setSlot_eq q hcount₁ hlen (by rwa [← hholds.count]) harr₁
  obtain ⟨r', hr', hkey', hcnt'⟩ := ht.entry
  set n' : UdpfwdInterfaceNode := { n₂ with addrCount := n₂.addrCount + 1 } with hn'
  have hp₁ : s₁.nodes p = some n := by rw [ht.nodes, hp]
  have hrefs₁ : ∀ p', s₁.refsAt p' = s.refsAt p' := by
    intro p'
    rw [State.refsAt, State.refsAt, ht.nodes]
  have hlive : ∀ q' ∈ n.refs ++ [q], ∃ r, s₁.servers q' = some r := by
    intro q' hq'
    rcases List.mem_append.mp hq' with hold | hnew
    · exact ht.linked.live p q' (by rwa [State.refsAt_eq hp₁])
    · rw [List.mem_singleton.mp hnew]
      exact ⟨r', hr'⟩
  have hlinked : Linked (s₁.setNode p n') :=
    ht.linked.setNode hp₁ (hname₂.trans hname₁) hholds₂ hlive
  -- the servers behind the pointers keep their keys
  have hkeys : ∀ p', ∀ q' ∈ s.refsAt p',
      (s₁.servers q').map UdpfwdServer.key = (s.servers q').map UdpfwdServer.key := by
    intro p' q' hq'
    obtain ⟨r, hr⟩ := h.live p' q' hq'
    by_cases hqq : q' = q
    · subst hqq
      rw [hr', hr, Option.map_some, Option.map_some, hkey', ht.key r hr]
    · rw [ht.others q' hqq]
  refine ⟨s₁.setNode p n', ?_, ⟨hlinked, ht.table, ?_, ?_⟩, ?_, ?_⟩
  · unfold udpfwdStoreAddress
    rw [s.node_eq_ok hp]
    show (if maxUdpBcastServerPerInterface ≤ n.addrCount then _ else _) = _
    have hvalid : ¬(n.addrCount ≠ 0 ∧ n.serverArray = none) := by
      intro hbad
      rcases hholds.array with ⟨hnil, _⟩ | ⟨_, _, _, harr⟩
      · exact hbad.1 (by rw [hholds.count, hnil]; rfl)
      · rw [harr] at hbad
        exact absurd hbad.2 (by simp)
    rw [if_neg (Nat.not_le.mpr hroom)]
    show (if n.addrCount ≠ 0 ∧ n.serverArray = none then _ else _) = _
    rw [if_neg hvalid, ← hn₁, htake]
    show (n₁.setSlot n₁.addrCount q >>= fun n => _) = _
    rw [hset]
    rfl
  · intro m hm
    rw [hp, Option.some.injEq] at hm
    subst hm
    exact ⟨n', State.nodes_setNode_self, hname₂.trans hname₁, hgw₂.trans hgw₁,
      hctr₂.trans hctr₁⟩
  · intro p' hne
    refine ⟨by rw [State.nodes_setNode_of_ne hne, ht.nodes], ?_⟩
    refine State.keysAt_congr ?_ (hkeys p')
    rw [State.refsAt_setNode_of_ne hne, hrefs₁]
  · have hkeysAt : (s₁.setNode p n').keysAt p
        = (n.refs ++ [q]).filterMap fun q => (s₁.servers q).map UdpfwdServer.key := by
      rw [State.keysAt_eq, State.refsAt_setNode_self, hholds₂.refs_eq]
      rfl
    rw [hkeysAt, List.filterMap_append, List.filterMap_congr
      fun q' hq' => hkeys p q' (by rwa [State.refsAt_eq hp]), State.keysAt_eq,
      State.refsAt_eq hp]
    simp [hr', hkey']
  · intro hc hbound
    have htotal : ∀ q', (s₁.setNode p n').refTotal q' + n.refs.count q'
        = s.refTotal q' + (n.refs ++ [q]).count q' := by
      intro q'
      have hsum := ht.linked.refTotal_setNode hp₁ hholds₂ q'
      rw [State.refsAt_eq hp₁] at hsum
      rw [hsum]
      congr 1
      simp only [State.refTotal, ht.table, hrefs₁]
    refine ht.counted h hc rfl (fun q' => ?_) hbound
    have hsum := htotal q'
    rw [List.count_append] at hsum
    omega

end store

/-! ## Dropping a reference -/

section drop

variable {s : State} {p : NodePtr} {q : ServerPtr} {r : UdpfwdServer}

theorem dropServerRef_nodes (hashVal : UInt32) :
    (dropServerRef s q r hashVal).nodes = s.nodes := by
  unfold dropServerRef
  dsimp only
  split <;> rfl

theorem dropServerRef_table (hashVal : UInt32) :
    (dropServerRef s q r hashVal).intfHashTable = s.intfHashTable := by
  unfold dropServerRef
  dsimp only
  split <;> rfl

theorem dropServerRef_refsAt (hashVal : UInt32) :
    (dropServerRef s q r hashVal).refsAt p = s.refsAt p := by
  rw [State.refsAt, State.refsAt, dropServerRef_nodes]

theorem dropServerRef_refTotal (hashVal : UInt32) (q' : ServerPtr) :
    (dropServerRef s q r hashVal).refTotal q' = s.refTotal q' := by
  simp only [State.refTotal, dropServerRef_table, dropServerRef_refsAt]

theorem dropServerRef_setNode (n : UdpfwdInterfaceNode) (hashVal : UInt32) :
    (dropServerRef s q r hashVal).setNode p n = dropServerRef (s.setNode p n) q r hashVal := by
  unfold dropServerRef
  dsimp only
  split <;> rfl

theorem dropServerRef_freeNode (hashVal : UInt32) :
    (dropServerRef s q r hashVal).freeNode p = dropServerRef (s.freeNode p) q r hashVal := by
  unfold dropServerRef
  dsimp only
  split <;> rfl

theorem dropServerRef_shashDelete (name : CString) (hashVal : UInt32) :
    (dropServerRef s q r hashVal).shashDelete name p
      = dropServerRef (s.shashDelete name p) q r hashVal := by
  unfold dropServerRef
  dsimp only
  split <;> rfl

theorem Linked.not_mem_refsAt (h : Linked s) (hq : s.refTotal q = 0) (p : NodePtr) :
    q ∉ s.refsAt p := by
  intro hmem
  cases hp : s.nodes p with
  | none =>
    rw [State.refsAt_eq_nil hp] at hmem
    exact absurd hmem List.not_mem_nil
  | some n =>
    have hcount : (s.refsAt p).count q ∈ s.intfHashTable.map fun e => (s.refsAt e.2).count q :=
      List.mem_map.mpr ⟨(n.portName, p), h.mem_table hp, rfl⟩
    rw [State.refTotal, List.sum_eq_zero_iff_forall_eq_nat] at hq
    exact absurd (hq _ hcount) (Nat.ne_of_gt (List.count_pos_iff.mpr hmem))

/-- An entry that no interface references may be removed. -/
theorem Linked.freeServer (h : Linked s) (hr : s.servers q = some r)
    (hfree : ∀ p, q ∉ s.refsAt p) :
    Linked ((s.cmapRemove q (s.hashInt r.ipAddress r.udpPort.toUInt32)).freeServer q) := by
  set s' := (s.cmapRemove q (s.hashInt r.ipAddress r.udpPort.toUInt32)).freeServer q with hs'
  have hself : s'.servers q = none := Function.update_self ..
  have hne : ∀ q', q' ≠ q → s'.servers q' = s.servers q' :=
    fun q' hq' => Function.update_of_ne hq' ..
  -- every server that is left was there before
  have hlook : ∀ q' x, s'.servers q' = some x → s.servers q' = some x := by
    intro q' x hx
    by_cases hqq : q' = q
    · rw [hqq, hself] at hx
      exact absurd hx (by simp)
    · rwa [hne q' hqq] at hx
  refine ⟨h.names, h.listed, h.holds, ?_, ?_, h.filedOnce.erase _, ?_, h.freshNode, ?_⟩
  · intro p q' hq'
    have hqq : q' ≠ q := by
      intro heq
      exact hfree p (heq ▸ hq')
    rw [hne q' hqq]
    exact h.live p q' hq'
  · intro hv q'
    rw [show s'.serverHashMap
      = s.serverHashMap.erase (s.hashInt r.ipAddress r.udpPort.toUInt32, q) from rfl,
      h.filedOnce.mem_erase_iff, h.filed]
    by_cases hqq : q' = q
    · subst hqq
      rw [hself, hr]
      constructor
      · intro hcase
        obtain ⟨hkey, r', hr', hhash⟩ := hcase
        rw [Option.some.injEq] at hr'
        exact absurd (by rw [hhash, hr']) hkey
      · intro hcase
        obtain ⟨r', hr', _⟩ := hcase
        exact absurd hr' (by simp)
    · rw [hne q' hqq]
      constructor
      · exact fun hcase => hcase.2
      · exact fun hcase => ⟨fun heq => hqq (congrArg Prod.snd heq), hcase⟩
  · intro q₁ q₂ r₁ r₂ h₁ h₂ hk
    exact h.unique q₁ q₂ r₁ r₂ (hlook q₁ r₁ h₁) (hlook q₂ r₂ h₂) hk
  · intro q' x hx
    exact h.freshServer q' x (hlook q' x hx)

/-- Dropping the reference that the counters still contain restores the invariant, and
no interface sees it. -/
theorem dropServerRef_inv (h : Linked s) (hr : s.servers q = some r)
    (hcount : ∀ q' r', s.servers q' = some r' →
      0 < r'.refCount.toNat ∧ r'.refCount.toNat = s.refTotal q' + [q].count q') :
    CacheInv (dropServerRef s q r (s.hashInt r.ipAddress r.udpPort.toUInt32)) ∧
      ∀ p, (dropServerRef s q r (s.hashInt r.ipAddress r.udpPort.toUInt32)).keysAt p
        = s.keysAt p := by
  set hashVal := s.hashInt r.ipAddress r.udpPort.toUInt32 with hhash
  set r' : UdpfwdServer := { r with refCount := r.refCount - 1 } with hr'
  obtain ⟨hpos, htotal⟩ := hcount q r hr
  rw [List.count_singleton_self] at htotal
  have hnat : r'.refCount.toNat = r.refCount.toNat - 1 := by
    have hle : (1 : UInt16) ≤ r.refCount := by
      rw [UInt16.le_iff_toNat_le]
      exact hpos
    rw [hr']
    exact UInt16.toNat_sub_of_le _ _ hle
  -- the counters of the other entries are as before
  have hothers : ∀ q' x, q' ≠ q → s.servers q' = some x →
      0 < x.refCount.toNat ∧ x.refCount.toNat = s.refTotal q' := by
    intro q' x hqq hx
    obtain ⟨hpos', htotal'⟩ := hcount q' x hx
    rw [List.count_singleton, if_neg (by simpa using fun heq => hqq heq.symm)] at htotal'
    exact ⟨hpos', htotal'⟩
  by_cases hzero : r'.refCount = 0
  · -- the last reference: the entry is freed
    have hdrop : dropServerRef s q r hashVal = (s.cmapRemove q hashVal).freeServer q := by
      show (if r'.refCount = 0 then ((s.setServer q r').cmapRemove q hashVal).freeServer q
        else s.setServer q r') = _
      rw [if_pos hzero]
      simp only [State.setServer, State.cmapRemove, State.freeServer, Function.update_idem]
    have hfree : ∀ p, q ∉ s.refsAt p := by
      apply h.not_mem_refsAt
      rw [hzero, UInt16.toNat_zero] at hnat
      omega
    have hne : ∀ q', q' ≠ q → (dropServerRef s q r hashVal).servers q' = s.servers q' := by
      intro q' hq'
      rw [hdrop]
      exact Function.update_of_ne hq' ..
    have hcase : ∀ q' x, (dropServerRef s q r hashVal).servers q' = some x →
        0 < x.refCount.toNat ∧ x.refCount.toNat = (dropServerRef s q r hashVal).refTotal q' := by
      intro q' x hx
      rw [dropServerRef_refTotal]
      by_cases hqq : q' = q
      · rw [hqq, hdrop] at hx
        rw [show ((s.cmapRemove q hashVal).freeServer q).servers q = none from
          Function.update_self ..] at hx
        exact absurd hx (by simp)
      · rw [hne q' hqq] at hx
        exact hothers q' x hqq hx
    refine ⟨⟨?_, ⟨fun q' x hx => (hcase q' x hx).1, fun q' x hx => (hcase q' x hx).2⟩⟩, ?_⟩
    · rw [hdrop]
      exact h.freeServer hr hfree
    · intro p
      refine State.keysAt_congr (dropServerRef_refsAt hashVal) ?_
      intro q' hq'
      rw [hne q' fun heq => hfree p (heq ▸ hq')]
  · -- the entry stays, with one reference less
    have hdrop : dropServerRef s q r hashVal = s.setServer q r' := by
      show (if r'.refCount = 0 then ((s.setServer q r').cmapRemove q hashVal).freeServer q
        else s.setServer q r') = _
      rw [if_neg hzero]
    have hself : (s.setServer q r').servers q = some r' := Function.update_self ..
    have hne : ∀ q', q' ≠ q → (s.setServer q r').servers q' = s.servers q' :=
      fun q' hq' => Function.update_of_ne hq' ..
    have hcase : ∀ q' x, (s.setServer q r').servers q' = some x →
        0 < x.refCount.toNat ∧ x.refCount.toNat = s.refTotal q' := by
      intro q' x hx
      by_cases hqq : q' = q
      · subst hqq
        rw [hself, Option.some.injEq] at hx
        subst hx
        have hnz : r'.refCount.toNat ≠ 0 := by
          intro hz
          exact hzero (UInt16.toNat_inj.mp hz)
        omega
      · rw [hne q' hqq] at hx
        exact hothers q' x hqq hx
    rw [hdrop]
    refine ⟨⟨h.setServer hr rfl,
      ⟨fun q' x hx => (hcase q' x hx).1, fun q' x hx => (hcase q' x hx).2⟩⟩, ?_⟩
    intro p
    refine State.keysAt_congr rfl ?_
    intro q' hq'
    by_cases hqq : q' = q
    · subst hqq
      rw [hself, hr]
      rfl
    · rw [hne q' hqq]

end drop

/-! ## Removing an address -/

section remove

variable {s : State} {p : NodePtr} {n : UdpfwdInterfaceNode}

/-- The slot at which `udpfwd_remove_server_ref_entry` finds a server. -/
theorem findSlot_eq (h : Linked s) (hp : s.nodes p = some n) (ipaddress : IpAddress)
    (udpPort : UInt16) :
    (List.range n.addrCount).findM? (fun index => do
      return (← s.slotServer n index).is ipaddress udpPort)
        = .ok ((s.keysAt p).idxOf? (ipaddress, udpPort)) := by
  rw [h.addrCount_eq hp, State.keysAt, List.length_map,
    findM?_range_eq (UdpfwdServer.is ipaddress udpPort) (h.slotServer_eq hp), List.idxOf?,
    List.findIdx?_map]
  congr 2
  funext r
  rw [Bool.eq_iff_iff]
  simp [UdpfwdServer.is, UdpfwdServer.key]

/-- A server that the interface does not list is not removed. -/
theorem udpfwdRemoveAddress_absent (h : Linked s) (hp : s.nodes p = some n)
    {ipaddress : IpAddress} {udpPort : UInt16} (hk : (ipaddress, udpPort) ∉ s.keysAt p) :
    udpfwdRemoveAddress s p ipaddress udpPort = .ok (false, s) := by
  have hnone : (s.keysAt p).idxOf? (ipaddress, udpPort) = none := List.idxOf?_eq_none_iff.mpr hk
  unfold udpfwdRemoveAddress udpfwdRemoveServerRefEntry
  rw [s.node_eq_ok hp, ok_bind, findSlot_eq h hp, hnone]
  rfl

/-- A node may be deleted with its entry in the table. -/
theorem Linked.deleteNode (h : Linked s) (hp : s.nodes p = some n) :
    Linked ((s.shashDelete n.portName p).freeNode p) := by
  set s' := (s.shashDelete n.portName p).freeNode p with hs'
  have hself : s'.nodes p = none := Function.update_self ..
  have hne : ∀ p', p' ≠ p → s'.nodes p' = s.nodes p' :=
    fun p' hp' => Function.update_of_ne hp' ..
  have htable : s'.intfHashTable = s.intfHashTable.erase (n.portName, p) := rfl
  -- every node that is left was there before
  have hlook : ∀ p' m, s'.nodes p' = some m → p' ≠ p ∧ s.nodes p' = some m := by
    intro p' m hm
    by_cases hpp : p' = p
    · rw [hpp, hself] at hm
      exact absurd hm (by simp)
    · rw [hne p' hpp] at hm
      exact ⟨hpp, hm⟩
  refine ⟨?_, ?_, ?_, ?_, h.filed, h.filedOnce, h.unique, ?_, h.freshServer⟩
  · rw [htable]
    exact h.names.sublist (List.erase_sublist.map _)
  · intro name p'
    rw [htable, h.table_nodup.mem_erase_iff, h.listed]
    by_cases hpp : p' = p
    · subst hpp
      rw [hself, hp]
      constructor
      · intro hcase
        obtain ⟨hentry, m, hm, hname⟩ := hcase
        rw [Option.some.injEq] at hm
        exact absurd (by rw [← hname, hm]) hentry
      · intro hcase
        obtain ⟨m, hm, _⟩ := hcase
        exact absurd hm (by simp)
    · rw [hne p' hpp]
      constructor
      · exact fun hcase => hcase.2
      · exact fun hcase => ⟨fun heq => hpp (congrArg Prod.snd heq), hcase⟩
  · intro p' m hm
    exact h.holds p' m (hlook p' m hm).2
  · intro p' q hq
    by_cases hpp : p' = p
    · rw [hpp, State.refsAt_eq_nil hself] at hq
      exact absurd hq List.not_mem_nil
    · rw [State.refsAt, hne p' hpp] at hq
      exact h.live p' q hq
  · intro p' m hm
    exact h.freshNode p' m (hlook p' m hm).2

theorem Linked.refTotal_deleteNode (h : Linked s) (hp : s.nodes p = some n) (q : ServerPtr) :
    ((s.shashDelete n.portName p).freeNode p).refTotal q + n.refs.count q = s.refTotal q := by
  have hsum := sum_map_erase (h.mem_table hp) fun e => (s.refsAt e.2).count q
  rw [State.refsAt_eq hp] at hsum
  rw [State.refTotal, State.refTotal, ← hsum]
  congr 2
  show (s.intfHashTable.erase (n.portName, p)).map _ = _
  apply List.map_congr_left
  intro e he
  have hne : e.2 ≠ p := by
    intro heq
    have hmem := h.table_nodup.mem_erase_iff.mp he
    exact hmem.1 (h.table_eq_of_snd hp hmem.2 heq)
  rw [State.refsAt, State.refsAt,
    show ((s.shashDelete n.portName p).freeNode p).nodes e.2 = s.nodes e.2 from
      Function.update_of_ne hne ..]

/-- What the removal of the last configuration of an interface leaves alone. -/
structure Frees (s s' : State) (p : NodePtr) (name : CString) : Prop where
  table : s'.intfHashTable = s.intfHashTable.erase (name, p)
  node : s'.nodes p = none
  others : ∀ p', p' ≠ p → s'.nodes p' = s.nodes p' ∧ s'.keysAt p' = s.keysAt p'

/-- What `udpfwd_remove_server_ref_entry` does before the slot is closed. -/
theorem udpfwdRemoveServerRefEntry_eq (h : CacheInv s) (hp : s.nodes p = some n)
    {ipaddress : IpAddress} {udpPort : UInt16} {index : ℕ}
    (hk : (s.keysAt p).idxOf? (ipaddress, udpPort) = some index) :
    ∃ q r, s.servers q = some r ∧ r.key = (ipaddress, udpPort) ∧ n.refs[index]? = some q ∧
      udpfwdRemoveServerRefEntry s p ipaddress udpPort = .ok (some (index,
        (dropServerRef s q r (s.hashInt ipaddress udpPort.toUInt32)).setNode p
          (n.clearSlot index))) := by
  have hl := h.linked
  obtain ⟨hlt, hkey, _⟩ := List.idxOf?_eq_some_iff.mp hk
  have hlt' : index < (s.refsAt p).length := by rwa [← hl.length_keysAt]
  have hltn : index < n.refs.length := by rwa [← State.refsAt_eq hp]
  obtain ⟨r, hr⟩ := hl.live p _ (List.getElem_mem hlt')
  have hget := getElem?_filterMap_eq (hl.live p) index hlt'
  have hrkey : r.key = (ipaddress, udpPort) := by
    have hmap : (s.keysAt p)[index]? = some r.key := by
      rw [State.keysAt, State.serversAt, List.getElem?_map, hget, hr]
      rfl
    rw [List.getElem?_eq_getElem hlt, Option.some.injEq] at hmap
    rw [← hmap, hkey]
  have hq : (s.refsAt p)[index] = n.refs[index] := by
    simp only [State.refsAt_eq hp]
  refine ⟨n.refs[index], r, by rw [← hq, hr], hrkey, List.getElem?_eq_getElem hltn, ?_⟩
  unfold udpfwdRemoveServerRefEntry
  rw [s.node_eq_ok hp, ok_bind, findSlot_eq hl hp, hk, ok_bind]
  show (n.slot index >>= _) = _
  rw [(hl.holds p n hp).slot_eq index hltn, ok_bind, s.server_eq_ok (hq ▸ hr), ok_bind]
  -- the entry counts this reference at least
  have hpos : r.refCount ≠ 0 := by
    intro hz
    have := h.counted.positive _ r hr
    rw [hz] at this
    exact absurd this (by decide)
  show (if r.refCount = 0 then _ else _) = _
  rw [if_neg hpos]
  rfl

/-- The keys behind pointers that survive a swap deletion. -/
theorem keys_swapErase (h : Linked s) (p : NodePtr) (index : ℕ) :
    (swapErase (s.refsAt p) index).filterMap (fun q => (s.servers q).map UdpfwdServer.key)
      = swapErase (s.keysAt p) index := by
  have hkey : ∀ q ∈ s.refsAt p, ∃ k, (s.servers q).map UdpfwdServer.key = some k := by
    intro q hq
    obtain ⟨r, hr⟩ := h.live p q hq
    exact ⟨r.key, by rw [hr]; rfl⟩
  rw [filterMap_swapErase hkey, State.keysAt_eq]

/-- The node after its slot `index` was emptied: it stays, with another server or a bootp
gateway. -/
theorem udpfwdRemoveAddress_slot {s₁ : State} {ipaddress : IpAddress} {udpPort : UInt16}
    {index : ℕ} (hholds : n.Holds n.refs) (hlt : index < n.refs.length)
    (hentry : udpfwdRemoveServerRefEntry s p ipaddress udpPort
      = .ok (some (index, s₁.setNode p (n.clearSlot index))))
    (hstay : n.refs.length ≠ 1 ∨ n.bootpGw ≠ 0) :
    ∃ n', udpfwdRemoveAddress s p ipaddress udpPort = .ok (true, s₁.setNode p n') ∧
      n'.portName = n.portName ∧ n'.bootpGw = n.bootpGw ∧
      n'.dhcpRelayPktCounters = n.dhcpRelayPktCounters ∧ n'.Holds (swapErase n.refs index) := by
  have hcount := hholds.count
  have hnode : (s₁.setNode p (n.clearSlot index)).node p = .ok (n.clearSlot index) :=
    State.node_eq_ok _ State.nodes_setNode_self
  have htwice : ∀ m, (s₁.setNode p (n.clearSlot index)).setNode p m = s₁.setNode p m := by
    intro m
    simp only [State.setNode, Function.update_idem]
  unfold udpfwdRemoveAddress
  rw [hentry, ok_bind]
  show ∃ n', (State.node _ p >>= _) = _ ∧ _
  rw [hnode, ok_bind]
  by_cases hone : n.refs.length = 1
  · -- the last server of an interface with a gateway
    have hgw : n.bootpGw ≠ 0 := hstay.resolve_left (not_not_intro hone)
    obtain ⟨unused, harr⟩ := hholds.clearSlot_eq index hlt hone
    have hindex : index = 0 := by omega
    have hzero : (n.clearSlot index).addrCount - 1 = 0 := by
      rw [show (n.clearSlot index).addrCount = n.addrCount from rfl, hcount, hone]
    refine ⟨{ n with addrCount := 0, serverArray := none }, ?_, rfl, rfl, rfl, ?_⟩
    · rw [if_neg (by rw [hindex]; exact fun hne => hne ⟨rfl, hindex ▸ hzero⟩)]
      simp only [pure_bind, harr, hzero, List.head?_cons, and_self, if_true]
      rw [if_neg (show ¬ (n.clearSlot index).bootpGw = 0 from hgw), htwice]
      rfl
    · have hnil : swapErase n.refs index = [] := by
        apply List.eq_nil_of_length_eq_zero
        rw [length_swapErase, hone]
      rw [hnil]
      exact UdpfwdInterfaceNode.Holds.of_empty rfl rfl
  · -- another server is left: the array is packed again
    obtain ⟨n', hpush, hname', hgw', hctr', hsome', hholds'⟩ := hholds.push_eq index hlt hone
    refine ⟨n', ?_, hname', hgw', hctr', hholds'⟩
    obtain ⟨slots, hslots⟩ := Option.isSome_iff_exists.mp hsome'
    have hne : (n.clearSlot index).addrCount - 1 ≠ 0 := by
      rw [show (n.clearSlot index).addrCount = n.addrCount from rfl, hcount]
      omega
    have hne' : n'.addrCount ≠ 0 := by
      rw [hholds'.count, length_swapErase]
      omega
    rw [if_pos fun hbad => hne hbad.2]
    show (udpfwdPushDeletedServerRefToEnd
      { n.clearSlot index with addrCount := n.addrCount - 1 } index >>= _) = _
    rw [hpush]
    simp only [ok_bind, pure_bind, hslots]
    rw [if_neg fun hbad => hne' hbad.2, htwice]
    rfl

/-- Removing a listed server deletes its first slot. The node stays when it has another
server or a bootp gateway. -/
theorem udpfwdRemoveAddress_eq (h : CacheInv s) (hp : s.nodes p = some n)
    {ipaddress : IpAddress} {udpPort : UInt16} {index : ℕ}
    (hk : (s.keysAt p).idxOf? (ipaddress, udpPort) = some index)
    (hstay : (s.keysAt p).length ≠ 1 ∨ n.bootpGw ≠ 0) :
    ∃ s', udpfwdRemoveAddress s p ipaddress udpPort = .ok (true, s') ∧ CacheInv s' ∧
      Touches s s' p ∧ s'.keysAt p = swapErase (s.keysAt p) index := by
  have hl := h.linked
  obtain ⟨q, r, hr, hrkey, hq, hentry⟩ := udpfwdRemoveServerRefEntry_eq h hp hk
  have hip : r.ipAddress = ipaddress ∧ r.udpPort = udpPort := by
    simpa [UdpfwdServer.key] using hrkey
  obtain ⟨hlt, hqget⟩ := List.getElem?_eq_some_iff.mp hq
  have hlen : (s.keysAt p).length = n.refs.length := by
    rw [hl.length_keysAt, State.refsAt_eq hp]
  rw [← hip.1, ← hip.2] at hentry
  set hashVal := s.hashInt r.ipAddress r.udpPort.toUInt32 with hhash
  obtain ⟨n', hrun, hname', hgw', hctr', hholds'⟩ :=
    udpfwdRemoveAddress_slot (hl.holds p n hp) hlt hentry (hlen ▸ hstay)
  rw [dropServerRef_setNode, hip.1, hip.2] at hrun
  have hperm := perm_cons_swapErase n.refs index hlt
  have hlive : ∀ q' ∈ swapErase n.refs index, ∃ r, s.servers q' = some r := by
    intro q' hq'
    refine hl.live p q' ?_
    rw [State.refsAt_eq hp]
    exact mem_of_mem_swapErase hq'
  have hlinked : Linked (s.setNode p n') := hl.setNode hp hname' hholds' hlive
  -- one reference to `q` less than the counters say
  have hcount : ∀ q' r', (s.setNode p n').servers q' = some r' → 0 < r'.refCount.toNat ∧
      r'.refCount.toNat = (s.setNode p n').refTotal q' + [q].count q' := by
    intro q' r' hr'
    have hsum := hl.refTotal_setNode hp hholds' q'
    have hcnt := hperm.count_eq q'
    rw [hqget, List.count_cons, ← List.count_singleton] at hcnt
    rw [State.refsAt_eq hp] at hsum
    have htot := h.counted.total q' r' hr'
    exact ⟨h.counted.positive q' r' hr', by omega⟩
  obtain ⟨hinv, hkeys⟩ :=
    dropServerRef_inv hlinked (show (s.setNode p n').servers q = some r from hr) hcount
  refine ⟨_, hrun, hinv, ⟨hinv.linked, dropServerRef_table _, ?_, ?_⟩, ?_⟩
  · intro m hm
    rw [hp, Option.some.injEq] at hm
    subst hm
    rw [dropServerRef_nodes]
    exact ⟨n', State.nodes_setNode_self, hname', hgw', hctr'⟩
  · intro p' hne
    refine ⟨by rw [dropServerRef_nodes, State.nodes_setNode_of_ne hne], ?_⟩
    exact (hkeys p').trans (State.keysAt_congr (State.refsAt_setNode_of_ne hne) fun _ _ => rfl)
  · have hself := hkeys p
    rw [State.keysAt_eq (p := p) (s := s.setNode p n'), State.refsAt_setNode_self,
      hholds'.refs_eq] at hself
    refine hself.trans ?_
    rw [← keys_swapErase hl p index, State.refsAt_eq hp]
    rfl

/-- Removing the last server of an interface without a gateway frees the node. -/
theorem udpfwdRemoveAddress_last (h : CacheInv s) (hp : s.nodes p = some n)
    {ipaddress : IpAddress} {udpPort : UInt16} (hk : s.keysAt p = [(ipaddress, udpPort)])
    (hgw : n.bootpGw = 0) :
    ∃ s', udpfwdRemoveAddress s p ipaddress udpPort = .ok (true, s') ∧ CacheInv s' ∧
      Frees s s' p n.portName := by
  have hl := h.linked
  have hidx : (s.keysAt p).idxOf? (ipaddress, udpPort) = some 0 := by
    rw [hk]
    simp [List.idxOf?_cons]
  obtain ⟨q, r, hr, hrkey, hq, hentry⟩ := udpfwdRemoveServerRefEntry_eq h hp hidx
  have hip : r.ipAddress = ipaddress ∧ r.udpPort = udpPort := by
    simpa [UdpfwdServer.key] using hrkey
  have hone : n.refs.length = 1 := by
    rw [← State.refsAt_eq hp, ← hl.length_keysAt, hk, List.length_singleton]
  have hrefs : n.refs = [q] := by
    obtain ⟨q', hq'⟩ := List.length_eq_one_iff.mp hone
    rw [hq'] at hq ⊢
    simpa using hq
  rw [← hip.1, ← hip.2] at hentry
  set hashVal := s.hashInt r.ipAddress r.udpPort.toUInt32 with hhash
  obtain ⟨unused, harr⟩ := (hl.holds p n hp).clearSlot_eq 0 (by omega) hone
  have hcountn := (hl.holds p n hp).count
  set sDel := (s.shashDelete n.portName p).freeNode p with hsDel
  have hrun : udpfwdRemoveAddress s p ipaddress udpPort
      = .ok (true, dropServerRef sDel q r hashVal) := by
    have hnode : ((dropServerRef s q r hashVal).setNode p (n.clearSlot 0)).node p
        = .ok (n.clearSlot 0) := State.node_eq_ok _ State.nodes_setNode_self
    have hfind : ((dropServerRef s q r hashVal).setNode p (n.clearSlot 0)).shashFind n.portName
        = some p := by
      rw [State.shashFind]
      show ((dropServerRef s q r hashVal).intfHashTable.find? _).map _ = _
      rw [dropServerRef_table]
      exact (hl.shashFind_eq_some_iff n.portName p).mpr ⟨n, hp, rfl⟩
    have hzero : (n.clearSlot 0).addrCount - 1 = 0 := by
      rw [show (n.clearSlot 0).addrCount = n.addrCount from rfl, hcountn, hone]
    unfold udpfwdRemoveAddress
    rw [← hip.1, ← hip.2, hentry, ok_bind]
    show (State.node _ p >>= _) = _
    rw [hnode, ok_bind, if_neg (fun hne => hne ⟨rfl, hzero⟩)]
    simp only [pure_bind, harr, hzero, List.head?_cons, and_self, if_true]
    rw [if_pos (show (n.clearSlot 0).bootpGw = 0 from hgw)]
    rw [show (n.clearSlot 0).portName = n.portName from rfl, hfind]
    show Except.ok (true, (((dropServerRef s q r hashVal).setNode p (n.clearSlot 0)).shashDelete
      n.portName p).freeNode p) = _
    rw [hsDel, ← dropServerRef_freeNode, ← dropServerRef_shashDelete]
    simp only [State.setNode, State.shashDelete, State.freeNode, Function.update_idem]
  -- one reference to `q` less than the counters say
  have hcount : ∀ q' r', sDel.servers q' = some r' → 0 < r'.refCount.toNat ∧
      r'.refCount.toNat = sDel.refTotal q' + [q].count q' := by
    intro q' r' hr'
    have hsum : sDel.refTotal q' + n.refs.count q' = s.refTotal q' :=
      hl.refTotal_deleteNode hp q'
    rw [hrefs] at hsum
    have htot := h.counted.total q' r' hr'
    exact ⟨h.counted.positive q' r' hr', by omega⟩
  obtain ⟨hinv, hkeys⟩ :=
    dropServerRef_inv (hl.deleteNode hp) (show sDel.servers q = some r from hr) hcount
  refine ⟨_, hrun, hinv, dropServerRef_table _, ?_, ?_⟩
  · rw [dropServerRef_nodes]
    exact Function.update_self ..
  · intro p' hne
    have hnodes : sDel.nodes p' = s.nodes p' := Function.update_of_ne hne ..
    refine ⟨by rw [dropServerRef_nodes, hnodes], ?_⟩
    refine (hkeys p').trans (State.keysAt_congr ?_ fun _ _ => rfl)
    rw [State.refsAt, State.refsAt, hnodes]

end remove

/-! ## Creating a node and setting its gateway -/

section create

variable {s : State}

/-- What a new node for a name without one looks like. -/
structure Creates (s s' : State) (p : NodePtr) (pname : CString) : Prop where
  fresh : s.nodes p = none
  table : s'.intfHashTable = s.intfHashTable ++ [(pname, p)]
  node : ∃ n, s'.nodes p = some n ∧ n.portName = pname ∧ n.bootpGw = 0
  empty : s'.keysAt p = []
  others : ∀ p', p' ≠ p → s'.nodes p' = s.nodes p' ∧ s'.keysAt p' = s.keysAt p'

theorem udpfwdCreateIntferfaceNode_eq (h : Linked s) {pname : CString}
    (habsent : s.shashFind pname = none) :
    ∃ p s', udpfwdCreateIntferfaceNode s pname = (p, s') ∧ Linked s' ∧ Creates s s' p pname ∧
      (Counted s → Counted s') := by
  set p := s.nextNode with hpdef
  set s' := (udpfwdCreateIntferfaceNode s pname).2 with hs'
  set n : UdpfwdInterfaceNode :=
    { portName := pname, addrCount := 0, serverArray := none, bootpGw := 0,
      dhcpRelayPktCounters := {} } with hn
  have hfresh : s.nodes p = none := by
    cases hp : s.nodes p with
    | none => rfl
    | some m => exact absurd (h.freshNode p m hp) (Nat.lt_irrefl _)
  have hself : s'.nodes p = some n := Function.update_self ..
  have hne : ∀ p', p' ≠ p → s'.nodes p' = s.nodes p' :=
    fun p' hp' => Function.update_of_ne hp' ..
  have htable : s'.intfHashTable = s.intfHashTable ++ [(pname, p)] := rfl
  have hholds : n.Holds [] := UdpfwdInterfaceNode.Holds.of_empty rfl rfl
  have hnil : s'.refsAt p = [] := by
    rw [State.refsAt_eq hself, hholds.refs_eq]
  -- the new node has no servers, so the references are as before
  have hrefs : ∀ p', s'.refsAt p' = s.refsAt p' := by
    intro p'
    by_cases hpp : p' = p
    · rw [hpp, hnil, State.refsAt_eq_nil hfresh]
    · rw [State.refsAt, State.refsAt, hne p' hpp]
  have hkeys : ∀ p', s'.keysAt p' = s.keysAt p' :=
    fun p' => State.keysAt_congr (hrefs p') fun _ _ => rfl
  refine ⟨p, s', rfl, ⟨?_, ?_, ?_, ?_, h.filed, h.filedOnce, h.unique, ?_, h.freshServer⟩,
    ⟨hfresh, htable, ⟨n, hself, rfl, rfl⟩, ?_, fun p' hp' => ⟨hne p' hp', hkeys p'⟩⟩, ?_⟩
  · -- the name was not in the table
    rw [htable, List.map_append, List.nodup_append]
    refine ⟨h.names, by simp, ?_⟩
    intro name hname name' hname' heq
    rw [List.map_singleton, List.mem_singleton] at hname'
    subst heq hname'
    obtain ⟨⟨name', p'⟩, hmem, hfst⟩ := List.mem_map.mp hname
    simp only at hfst
    subst hfst
    have hfind := (h.shashFind_eq_some_iff _ p').mpr ((h.listed _ p').mp hmem)
    rw [habsent] at hfind
    exact absurd hfind (by simp)
  · intro name p'
    rw [htable, List.mem_append, h.listed, List.mem_singleton]
    by_cases hpp : p' = p
    · rw [hpp, hself, hfresh]
      constructor
      · intro hcase
        rcases hcase with hold | hnew
        · obtain ⟨m, hm, _⟩ := hold
          exact absurd hm (by simp)
        · exact ⟨n, rfl, (congrArg Prod.fst hnew).symm⟩
      · intro hcase
        obtain ⟨m, hm, hname⟩ := hcase
        rw [Option.some.injEq] at hm
        subst hm
        exact Or.inr (by rw [← hname])
    · rw [hne p' hpp]
      constructor
      · intro hcase
        rcases hcase with hold | hnew
        · exact hold
        · exact absurd (congrArg Prod.snd hnew) hpp
      · exact Or.inl
  · intro p' m hm
    by_cases hpp : p' = p
    · rw [hpp, hself, Option.some.injEq] at hm
      rw [← hm, hholds.refs_eq]
      exact hholds
    · rw [hne p' hpp] at hm
      exact h.holds p' m hm
  · intro p' q hq
    rw [hrefs] at hq
    exact h.live p' q hq
  · intro p' m hm
    show p' < s.nextNode + 1
    by_cases hpp : p' = p
    · exact hpp ▸ Nat.lt_succ_self _
    · rw [hne p' hpp] at hm
      exact Nat.lt_succ_of_lt (h.freshNode p' m hm)
  · rw [hkeys, State.keysAt_eq, State.refsAt_eq_nil hfresh]
    rfl
  · intro hc
    have htotal : ∀ q, s'.refTotal q = s.refTotal q := by
      intro q
      simp only [State.refTotal, htable, hrefs, List.map_append, List.sum_append,
        List.map_singleton, State.refsAt_eq_nil hfresh, List.count_nil, List.sum_singleton,
        Nat.add_zero]
    exact ⟨hc.positive, fun q r hr => (hc.total q r hr).trans (htotal q).symm⟩

/-- The gateway of a node is not part of what the invariant is about. -/
theorem setBootpGw_eq (h : Linked s) {p : NodePtr} {n : UdpfwdInterfaceNode}
    (hp : s.nodes p = some n) (gw : IpAddress) :
    Linked (s.setNode p { n with bootpGw := gw }) ∧
      (∀ p', (s.setNode p { n with bootpGw := gw }).keysAt p' = s.keysAt p') ∧
      (Counted s → Counted (s.setNode p { n with bootpGw := gw })) := by
  obtain ⟨hcount, hbound, harray⟩ := h.holds p n hp
  have hholds : UdpfwdInterfaceNode.Holds { n with bootpGw := gw } n.refs :=
    ⟨hcount, hbound, harray⟩
  have hlive : ∀ q ∈ n.refs, ∃ r, s.servers q = some r := by
    intro q hq
    exact h.live p q (by rwa [State.refsAt_eq hp])
  have hrefs : ∀ p', (s.setNode p { n with bootpGw := gw }).refsAt p' = s.refsAt p' := by
    intro p'
    by_cases hpp : p' = p
    · subst hpp
      rw [State.refsAt_setNode_self, State.refsAt_eq hp]
      rfl
    · exact State.refsAt_setNode_of_ne hpp
  refine ⟨h.setNode hp rfl hholds hlive,
    fun p' => State.keysAt_congr (hrefs p') fun _ _ => rfl, ?_⟩
  intro hc
  refine ⟨hc.positive, fun q r hr => (hc.total q r hr).trans ?_⟩
  simp only [State.refTotal, hrefs]
  rfl

end create

end Udpfwd
end IpApps
