import IpApps.Dhcpv6r.State
import IpApps.Lib.ExceptLoops
import Mathlib.Data.List.Basic

/-!
# The server map

What taking and dropping a reference does to the entries and to `serverHashMap`. The
entries are seen through two functions of the pointer: the server an entry stands for and
its reference count. The invariant of the map is about these two.
-/

namespace IpApps
namespace Dhcpv6r

open ExceptLoops

/-! ## Comparing servers -/

namespace ServerKey

/-- `compare_server`, on servers. -/
def begins (k k' : ServerKey) : Bool := compareServer k.1 k'.1 k.2 k'.2

/-- `GENERATE_KEY`, on a server. -/
def hash (ovs : Ovs) (k : ServerKey) : UInt32 := generateKey ovs k.1 k.2

/-- Without an egress interface, servers are compared by their addresses. -/
theorem begins_none_iff (a b : CString) : begins (a, none) (b, none) = true ↔ a <+: b := by
  unfold begins compareServer
  rw [← Libc.strncmp_length_eq_zero_iff]
  simp

theorem begins_iff (k k' : ServerKey) :
    k.begins k' = true ↔ k.1 <+: k'.1 ∧ ((k.2 = none ∧ k'.2 = none) ∨
      ∃ e e', k.2 = some e ∧ k'.2 = some e' ∧ e <+: e') := by
  unfold begins compareServer
  rw [← Libc.strncmp_length_eq_zero_iff]
  split
  · rename_i haddr
    cases k.2 <;> cases k'.2 <;> simp [haddr, Libc.strncmp_length_eq_zero_iff]
  · rename_i haddr
    simp [haddr]

theorem begins_refl (k : ServerKey) : k.begins k = true := by
  rw [begins_iff]
  refine ⟨List.prefix_rfl, ?_⟩
  cases hk : k.2 with
  | none => exact Or.inl ⟨rfl, rfl⟩
  | some e => exact Or.inr ⟨e, e, rfl, rfl, List.prefix_rfl⟩

end ServerKey

/-! ## What the entries are -/

namespace ServerMap

variable {ovs : Ovs} {m : ServerMap} {q : ServerPtr} {k : ServerKey}

/-- The server an entry stands for. -/
def keyOf (m : ServerMap) (q : ServerPtr) : Option ServerKey := (m.entries q).map Server.key

/-- The reference count of an entry, 0 if there is none. -/
def refs (m : ServerMap) (q : ServerPtr) : ℕ :=
  match m.entries q with
  | some r => r.refCount.toNat
  | none => 0

theorem keyOf_eq_some_iff : m.keyOf q = some k ↔ ∃ r, m.entries q = some r ∧ r.key = k := by
  rw [keyOf, Option.map_eq_some_iff]

@[simp]
theorem keyOf_setServer (q : ServerPtr) (r : Server) :
    (m.setServer q r).keyOf = Function.update m.keyOf q (some r.key) := by
  funext q'
  unfold keyOf setServer
  by_cases hq : q' = q
  · subst hq
    simp
  · simp [Function.update_of_ne hq]

@[simp]
theorem refs_setServer (q : ServerPtr) (r : Server) :
    (m.setServer q r).refs = Function.update m.refs q r.refCount.toNat := by
  funext q'
  unfold refs setServer
  by_cases hq : q' = q
  · subst hq
    simp
  · simp [Function.update_of_ne hq]

@[simp]
theorem keyOf_freeServer (q : ServerPtr) :
    (m.freeServer q).keyOf = Function.update m.keyOf q none := by
  funext q'
  unfold keyOf freeServer
  by_cases hq : q' = q
  · subst hq
    simp
  · simp [Function.update_of_ne hq]

@[simp]
theorem refs_freeServer (q : ServerPtr) :
    (m.freeServer q).refs = Function.update m.refs q 0 := by
  funext q'
  unfold refs freeServer
  by_cases hq : q' = q
  · subst hq
    simp
  · simp [Function.update_of_ne hq]

/-! ## The invariant -/

/-- The map files exactly the live entries, each once and under the hash of its server; a
server has at most one entry, and every entry is referenced. -/
structure Inv (ovs : Ovs) (m : ServerMap) : Prop where
  filed : ∀ h q, (h, q) ∈ m.serverHashMap ↔ ∃ k, m.keyOf q = some k ∧ h = k.hash ovs
  filedOnce : m.serverHashMap.Nodup
  unique : ∀ q q' k, m.keyOf q = some k → m.keyOf q' = some k → q = q'
  fresh : ∀ q k, m.keyOf q = some k → q < m.next
  positive : ∀ q k, m.keyOf q = some k → 0 < m.refs q

/-- An entry may be replaced by one of the same server that is referenced. -/
theorem Inv.setServer (h : m.Inv ovs) {r : Server} (hq : m.keyOf q = some r.key)
    (hpos : 0 < r.refCount.toNat) : (m.setServer q r).Inv ovs := by
  have hkey : (m.setServer q r).keyOf = m.keyOf := by
    rw [keyOf_setServer, ← hq, Function.update_eq_self]
  refine ⟨?_, h.filedOnce, ?_, ?_, ?_⟩
  · rw [hkey]
    exact h.filed
  · rw [hkey]
    exact h.unique
  · rw [hkey]
    exact h.fresh
  · intro q' k hk
    rw [hkey] at hk
    rw [refs_setServer]
    by_cases hqq : q' = q
    · rw [hqq, Function.update_self]
      exact hpos
    · rw [Function.update_of_ne hqq]
      exact h.positive q' k hk

theorem Inv.keyOf_next (h : m.Inv ovs) : m.keyOf m.next = none := by
  cases hnext : m.keyOf m.next with
  | none => rfl
  | some k => exact absurd (h.fresh _ k hnext) (Nat.lt_irrefl _)

theorem refs_eq_zero (hq : m.keyOf q = none) : m.refs q = 0 := by
  rw [keyOf, Option.map_eq_none_iff] at hq
  rw [refs, hq]

/-- A server without an entry gets one. -/
theorem Inv.addServerEntry (h : m.Inv ovs) (hnew : ∀ q, m.keyOf q ≠ some k) :
    (dhcpv6rAddServerEntry ovs m k.1 k.2).2.Inv ovs ∧
      (dhcpv6rAddServerEntry ovs m k.1 k.2).2.keyOf =
        Function.update m.keyOf m.next (some k) ∧
      (dhcpv6rAddServerEntry ovs m k.1 k.2).2.refs = Function.update m.refs m.next 1 := by
  set m' := (dhcpv6rAddServerEntry ovs m k.1 k.2).2 with hm'
  have hkey : m'.keyOf = Function.update m.keyOf m.next (some k) :=
    keyOf_setServer (m := { m with next := m.next + 1 }) m.next ⟨k.1, k.2, 1⟩
  have hrefs : m'.refs = Function.update m.refs m.next 1 :=
    refs_setServer (m := { m with next := m.next + 1 }) m.next ⟨k.1, k.2, 1⟩
  have hmap : m'.serverHashMap = (k.hash ovs, m.next) :: m.serverHashMap := rfl
  have hnone := h.keyOf_next
  -- an entry is the new one or was there before
  have hold : ∀ q k', m'.keyOf q = some k' →
      (q = m.next ∧ k' = k) ∨ (q ≠ m.next ∧ m.keyOf q = some k') := by
    intro q k' hk
    rw [hkey] at hk
    by_cases hq : q = m.next
    · rw [hq, Function.update_self] at hk
      exact Or.inl ⟨hq, (Option.some.inj hk).symm⟩
    · rw [Function.update_of_ne hq] at hk
      exact Or.inr ⟨hq, hk⟩
  refine ⟨⟨?_, ?_, ?_, ?_, ?_⟩, hkey, hrefs⟩
  · intro hv q
    rw [hmap, List.mem_cons, h.filed, hkey]
    by_cases hq : q = m.next
    · rw [hq, Function.update_self, hnone]
      simp [Prod.ext_iff]
    · rw [Function.update_of_ne hq]
      simp [Prod.ext_iff, hq]
  · rw [hmap, List.nodup_cons]
    refine ⟨?_, h.filedOnce⟩
    intro hmem
    obtain ⟨k', hk', _⟩ := (h.filed _ _).mp hmem
    rw [hnone] at hk'
    exact absurd hk' (by simp)
  · intro q q' k' hq hq'
    rcases hold q k' hq with ⟨hqn, rfl⟩ | ⟨_, hk⟩
    · rcases hold q' k' hq' with ⟨hqn', _⟩ | ⟨_, hk'⟩
      · rw [hqn, hqn']
      · exact absurd hk' (hnew q')
    · rcases hold q' k' hq' with ⟨_, rfl⟩ | ⟨_, hk'⟩
      · exact absurd hk (hnew q)
      · exact h.unique q q' k' hk hk'
  · intro q k' hq
    show q < m.next + 1
    rcases hold q k' hq with ⟨hqn, _⟩ | ⟨_, hk⟩
    · exact hqn ▸ Nat.lt_succ_self _
    · exact Nat.lt_succ_of_lt (h.fresh q k' hk)
  · intro q k' hq
    rw [hrefs]
    rcases hold q k' hq with ⟨hqn, _⟩ | ⟨hne, hk⟩
    · rw [hqn, Function.update_self]
      omega
    · rw [Function.update_of_ne hne]
      exact h.positive q k' hk

/-- An entry leaves the map and is freed. -/
theorem Inv.freeServer (h : m.Inv ovs) (hq : m.keyOf q = some k) :
    (ServerMap.freeServer { m with
      serverHashMap := m.serverHashMap.erase (k.hash ovs, q) } q).Inv ovs := by
  set m' := ServerMap.freeServer
    { m with serverHashMap := m.serverHashMap.erase (k.hash ovs, q) } q with hm'
  have hkey : m'.keyOf = Function.update m.keyOf q none :=
    keyOf_freeServer (m := { m with serverHashMap := m.serverHashMap.erase (k.hash ovs, q) }) q
  have hrefs : m'.refs = Function.update m.refs q 0 :=
    refs_freeServer (m := { m with serverHashMap := m.serverHashMap.erase (k.hash ovs, q) }) q
  have hold : ∀ q' k', m'.keyOf q' = some k' → q' ≠ q ∧ m.keyOf q' = some k' := by
    intro q' k' hk
    rw [hkey] at hk
    by_cases hqq : q' = q
    · rw [hqq, Function.update_self] at hk
      exact absurd hk (by simp)
    · rw [Function.update_of_ne hqq] at hk
      exact ⟨hqq, hk⟩
  refine ⟨?_, h.filedOnce.erase _, ?_, ?_, ?_⟩
  · intro hv q'
    show (hv, q') ∈ m.serverHashMap.erase (k.hash ovs, q) ↔ _
    rw [h.filedOnce.mem_erase_iff, h.filed, hkey]
    by_cases hqq : q' = q
    · rw [hqq, Function.update_self, hq]
      simp [Prod.ext_iff]
    · rw [Function.update_of_ne hqq]
      simp [Prod.ext_iff, hqq]
  · intro q₁ q₂ k' h₁ h₂
    exact h.unique q₁ q₂ k' (hold q₁ k' h₁).2 (hold q₂ k' h₂).2
  · intro q' k' hk
    exact h.fresh q' k' (hold q' k' hk).2
  · intro q' k' hk
    obtain ⟨hne, hk'⟩ := hold q' k' hk
    rw [hrefs, Function.update_of_ne hne]
    exact h.positive q' k' hk'

/-! ## Looking a server up -/

theorem mem_bucket (h : m.Inv ovs) {hash : UInt32} :
    q ∈ m.bucket hash ↔ ∃ k, m.keyOf q = some k ∧ hash = k.hash ovs := by
  rw [← h.filed]
  simp [bucket]

/-- `dhcpv6r_get_server_entry` finds the first entry of the bucket that the server is a
beginning of. -/
theorem dhcpv6rGetServerEntry_eq (h : m.Inv ovs) (k : ServerKey) :
    dhcpv6rGetServerEntry ovs m k.1 k.2 = .ok ((ovs.bucketOrder (m.bucket (k.hash ovs))).find?
      fun q => (m.keyOf q).any k.begins) := by
  refine findM?_eq_ok ?_
  intro q hq
  obtain ⟨k', hk', _⟩ := (mem_bucket h).mp ((ovs.bucketOrder_perm _).mem_iff.mp hq)
  obtain ⟨r, hr, hrk⟩ := keyOf_eq_some_iff.mp hk'
  rw [hk', server, hr, ← hrk]
  rfl

/-- Two maps with the same entries, but for their counters. -/
structure SameEntries (m m' : ServerMap) : Prop where
  map : m.serverHashMap = m'.serverHashMap
  keyOf : m.keyOf = m'.keyOf
  next : m.next = m'.next

/-- The counters make no difference to what is found. -/
theorem SameEntries.getServerEntry_eq {m' : ServerMap} (h : SameEntries m m')
    (ipv6Address : CString) (egressIfName : Option CString) :
    dhcpv6rGetServerEntry ovs m ipv6Address egressIfName =
      dhcpv6rGetServerEntry ovs m' ipv6Address egressIfName := by
  have hserver : ∀ q, (do
      let serverIP ← m.server q
      return compareServer ipv6Address serverIP.ipv6Address egressIfName serverIP.egressIfName) =
      (do
        let serverIP ← m'.server q
        return compareServer ipv6Address serverIP.ipv6Address egressIfName
          serverIP.egressIfName) := by
    intro q
    have hkey := congrFun h.keyOf q
    unfold ServerMap.keyOf at hkey
    unfold server
    cases hr : m.entries q with
    | none =>
      cases hr' : m'.entries q with
      | none => rfl
      | some r' =>
        rw [hr, hr'] at hkey
        exact absurd hkey (by simp)
    | some r =>
      cases hr' : m'.entries q with
      | none =>
        rw [hr, hr'] at hkey
        exact absurd hkey (by simp)
      | some r' =>
        rw [hr, hr'] at hkey
        obtain ⟨hip, hname⟩ := Prod.mk.inj (Option.some.inj hkey)
        simp only [ok_bind, hip, hname]
  unfold dhcpv6rGetServerEntry bucket
  rw [h.map]
  exact congrArg (fun f => List.findM? f _) (funext hserver)

theorem SameEntries.addServerEntry {m' : ServerMap} (h : SameEntries m m') (k : ServerKey) :
    SameEntries (dhcpv6rAddServerEntry ovs m k.1 k.2).2
      (dhcpv6rAddServerEntry ovs m' k.1 k.2).2 := by
  have hkey : ∀ m : ServerMap, (dhcpv6rAddServerEntry ovs m k.1 k.2).2.keyOf =
      Function.update m.keyOf m.next (some k) := fun m =>
    keyOf_setServer (m := { m with next := m.next + 1 }) m.next ⟨k.1, k.2, 1⟩
  refine ⟨?_, ?_, congrArg (· + 1) h.next⟩
  · show (k.hash ovs, m.next) :: m.serverHashMap = (k.hash ovs, m'.next) :: m'.serverHashMap
    rw [h.map, h.next]
  · rw [hkey, hkey, h.keyOf, h.next]

/-- What `takeServerRef` does for the server `k`: the entry `q`, which stands for the
server `k'`, gets one reference more. It is one that `k` is a beginning of, or a new one
for `k`. The counter must have room. -/
structure TakesRef (ovs : Ovs) (m m' : ServerMap) (q : ServerPtr) (k k' : ServerKey) :
    Prop where
  keyOf : m'.keyOf = Function.update m.keyOf q (some k')
  source : m.keyOf q = some k' ∨ (m.keyOf q = none ∧ k' = k)
  found : m.keyOf q ≠ none → dhcpv6rGetServerEntry ovs m k.1 k.2 = .ok (some q)
  added : m.keyOf q = none →
    (∀ q', m.keyOf q' ≠ some k) ∧ m' = (dhcpv6rAddServerEntry ovs m k.1 k.2).2
  kept : m.keyOf q ≠ none → SameEntries m' m
  begins : k.begins k' = true
  hash : k'.hash ovs = k.hash ovs
  inv : m.refs q < 65535 → m'.Inv ovs
  refs : m.refs q < 65535 → m'.refs = Function.update m.refs q (m.refs q + 1)

theorem takeServerRef_eq (h : m.Inv ovs) (k : ServerKey) :
    ∃ q m' k', takeServerRef ovs m k.1 k.2 = .ok (q, m') ∧ TakesRef ovs m m' q k k' := by
  have hget := dhcpv6rGetServerEntry_eq h k
  unfold takeServerRef
  rw [hget, ok_bind]
  cases hfind : (ovs.bucketOrder (m.bucket (k.hash ovs))).find?
      fun q => (m.keyOf q).any k.begins with
  | some q =>
    -- an entry that the server is a beginning of counts one more reference
    have hmem := (ovs.bucketOrder_perm _).mem_iff.mp (List.mem_of_find?_eq_some hfind)
    obtain ⟨k', hk', hhash⟩ := (mem_bucket h).mp hmem
    have hbegins : k.begins k' = true := by simpa [hk'] using List.find?_some hfind
    obtain ⟨r, hr, hrk⟩ := keyOf_eq_some_iff.mp hk'
    have hcount : m.refs q = r.refCount.toNat := by rw [ServerMap.refs, hr]
    have hone : m.refs q < 65535 → (r.refCount + 1).toNat = m.refs q + 1 := by
      intro hlt
      rw [UInt16.toNat_add, hcount]
      exact Nat.mod_eq_of_lt (by rw [hcount] at hlt; simp; omega)
    have hsame : (m.setServer q { r with refCount := r.refCount + 1 }).keyOf = m.keyOf := by
      rw [keyOf_setServer]
      exact Function.update_eq_self_iff.mpr (hk'.trans (congrArg some hrk.symm)).symm
    refine ⟨q, m.setServer q { r with refCount := r.refCount + 1 }, k', ?_,
      ⟨?_, Or.inl hk', fun _ => by rw [hget, hfind], fun hnone => ?_, fun _ => ⟨rfl, hsame, rfl⟩,
        hbegins, hhash.symm, ?_, ?_⟩⟩
    · show (m.server q >>= fun server => _) = _
      rw [server, hr]
      rfl
    · rw [keyOf_setServer, ← hrk]
      rfl
    · rw [hk'] at hnone
      exact absurd hnone (by simp)
    · intro hlt
      refine h.setServer (hk'.trans (congrArg some hrk.symm)) ?_
      show 0 < (r.refCount + 1).toNat
      rw [hone hlt]
      omega
    · intro hlt
      rw [refs_setServer, ← hone hlt]
  | none =>
    -- no such entry: a new one
    have hnew : ∀ q, m.keyOf q ≠ some k := by
      intro q hq
      have hmem := (ovs.bucketOrder_perm _).mem_iff.mpr ((mem_bucket h).mpr ⟨k, hq, rfl⟩)
      have hnone := List.find?_eq_none.mp hfind q hmem
      rw [hq] at hnone
      exact hnone k.begins_refl
    obtain ⟨hinv, hkey, hrefs⟩ := h.addServerEntry hnew
    refine ⟨m.next, (dhcpv6rAddServerEntry ovs m k.1 k.2).2, k, rfl,
      ⟨hkey, Or.inr ⟨h.keyOf_next, rfl⟩, fun hne => absurd h.keyOf_next hne,
        fun _ => ⟨hnew, rfl⟩, fun hne => absurd h.keyOf_next hne, k.begins_refl, rfl,
        fun _ => hinv, ?_⟩⟩
    intro _
    rw [hrefs, refs_eq_zero h.keyOf_next]

/-! ## Dropping a reference -/

/-- What `dropServerRef` does: the entry `q` for the server `k` gets one reference less,
and without references it leaves the map. -/
structure DropsRef (ovs : Ovs) (m m' : ServerMap) (q : ServerPtr) (k : ServerKey) : Prop where
  inv : m'.Inv ovs
  refs : m'.refs = Function.update m.refs q (m.refs q - 1)
  keyOf : m'.keyOf = if m.refs q = 1 then Function.update m.keyOf q none else m.keyOf
  map : m'.serverHashMap =
    if m.refs q = 1 then m.serverHashMap.erase (k.hash ovs, q) else m.serverHashMap

theorem cmapRemove_eq {hash : UInt32} (hfiled : (hash, q) ∈ m.serverHashMap) :
    m.cmapRemove q hash =
      .ok { m with serverHashMap := m.serverHashMap.erase (hash, q) } := by
  rw [cmapRemove, if_pos hfiled]

/-- With its last reference an entry must be removed under its own hash. -/
theorem dropServerRef_eq (h : m.Inv ovs) (hq : m.keyOf q = some k) {hashKey : UInt32}
    (hown : m.refs q = 1 → hashKey = k.hash ovs) :
    ∃ m', dropServerRef m q hashKey = .ok m' ∧ DropsRef ovs m m' q k := by
  obtain ⟨r, hr, hrk⟩ := keyOf_eq_some_iff.mp hq
  have hcount : m.refs q = r.refCount.toNat := by rw [ServerMap.refs, hr]
  have hpos := h.positive q k hq
  have hnz : r.refCount ≠ 0 := by
    intro hz
    rw [hcount, hz] at hpos
    exact absurd hpos (by decide)
  set r' : Server := { r with refCount := r.refCount - 1 } with hr'
  have hless : r'.refCount.toNat = m.refs q - 1 := by
    have hle : (1 : UInt16) ≤ r.refCount := by
      rw [UInt16.le_iff_toNat_le, ← hcount]
      exact hpos
    rw [hcount]
    exact UInt16.toNat_sub_of_le _ _ hle
  -- the counter comes to 0 with the last reference only
  have hzero : r'.refCount = 0 ↔ m.refs q = 1 := by
    rw [← UInt16.toNat_inj, hless, UInt16.toNat_zero]
    omega
  unfold dropServerRef
  rw [server, hr]
  simp only [ok_bind, if_neg hnz]
  show ∃ m', ((pure () : Except Fault Unit) >>= fun _ => if r'.refCount = 0 then _ else _) = _ ∧ _
  by_cases hlast : m.refs q = 1
  · have hfiled : (k.hash ovs, q) ∈ m.serverHashMap := (h.filed _ _).mpr ⟨k, hq, rfl⟩
    rw [if_pos (hzero.mpr hlast), hown hlast]
    refine ⟨ServerMap.freeServer { m with
        serverHashMap := m.serverHashMap.erase (k.hash ovs, q) } q, ?_,
      ⟨h.freeServer hq, ?_, ?_, ?_⟩⟩
    · have hremove := cmapRemove_eq (m := m.setServer q r') hfiled
      show (cmapRemove (m.setServer q r') q (k.hash ovs) >>= _) = _
      rw [hremove, ok_bind]
      simp only [setServer, ServerMap.freeServer, Function.update_idem]
      rfl
    · rw [refs_freeServer, hlast]
      rfl
    · rw [keyOf_freeServer, if_pos hlast]
      rfl
    · rw [if_pos hlast]
      rfl
  · rw [if_neg (mt hzero.mp hlast)]
    refine ⟨m.setServer q r', rfl, ⟨h.setServer (hq.trans (congrArg some hrk.symm)) ?_, ?_, ?_, ?_⟩⟩
    · rw [hless]
      omega
    · rw [refs_setServer, hless]
    · have hsame : some r'.key = m.keyOf q := by
        rw [hq, ← hrk]
        rfl
      rw [keyOf_setServer, if_neg hlast, hsame, Function.update_eq_self]
    · rw [if_neg hlast]
      rfl

/-- Under another hash the removal of the last reference fails. -/
theorem dropServerRef_stray (h : m.Inv ovs) (hq : m.keyOf q = some k) {hashKey : UInt32}
    (hlast : m.refs q = 1) (hstray : hashKey ≠ k.hash ovs) :
    dropServerRef m q hashKey = .error .notFiled := by
  obtain ⟨r, hr, hrk⟩ := keyOf_eq_some_iff.mp hq
  have hcount : r.refCount.toNat = 1 := by rw [← hlast, ServerMap.refs, hr]
  have hr1 : r.refCount = 1 := UInt16.toNat_inj.mp hcount
  have hfiled : (hashKey, q) ∉ m.serverHashMap := by
    intro hmem
    obtain ⟨k', hk', hhash⟩ := (h.filed _ _).mp hmem
    rw [hq, Option.some.injEq] at hk'
    exact hstray (hk' ▸ hhash)
  unfold dropServerRef
  rw [server, hr]
  simp only [ok_bind, hr1]
  show (cmapRemove (m.setServer q _) q hashKey >>= _) = _
  rw [cmapRemove, if_neg (show (hashKey, q) ∉ (m.setServer q _).serverHashMap from hfiled)]
  rfl

end ServerMap

end Dhcpv6r
end IpApps
