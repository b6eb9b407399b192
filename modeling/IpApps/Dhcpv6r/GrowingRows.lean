import IpApps.Dhcpv6r.Reconfigure

/-!
# Rows that grow

The flush of `dhcpv6r_handle_config_change` compares the servers of an interface with the row
position by position, so that the interface follows its row as long as the row only grows at its
end, or has one address replaced by another one at the same position. `rows_of_growing_polls` says
that in every run over tables of which each follows from the one before in this way the daemon
does not fault, and each interface holds the servers of its row, in the order of the row.
-/

namespace IpApps
namespace Dhcpv6r

open ExceptLoops Outcomes SwapErase

/-! ## The addresses of a row -/

section addresses

variable {old row : List CString} {a b : CString}

/-- A row grows at its end, or one address is replaced by another one. -/
inductive Follows : List CString → List CString → Prop
  | grown (old more : List CString) (hroom : (old ++ more).length ≤ maxServersPerInterface) :
      Follows old (old ++ more)
  | replaced (left right : List CString) (a b : CString) (hne : b ≠ a)
      (hroom : (left ++ a :: right).length < maxServersPerInterface) :
      Follows (left ++ a :: right) (left ++ b :: right)

/-- No address of the one list is a beginning of another one of the other. -/
def ApartFrom (old row : List CString) : Prop :=
  ∀ x ∈ old ++ row, ∀ y ∈ row, x <+: y → x = y

/-- Addresses that are apart are stored when they find room. -/
theorem TakesNew.of_apart (hnodup : row.Nodup) (hapart : ApartFrom old row)
    (hroom : (old ++ newAddresses old row).length ≤ maxServersPerInterface) :
    TakesNew old row := by
  refine ⟨fun a ha x hx hxa => ?_, ?_, hroom⟩
  · obtain ⟨harow, hnot⟩ := List.mem_filter.mp ha
    have hsame := hapart x (List.mem_append_left _ hx) a harow hxa
    subst hsame
    exact absurd hx (of_decide_eq_true hnot)
  · refine hnodup.imp_of_mem fun {a b} ha hb hne _ hab => ?_
    exact hne (hapart a (List.mem_append_right _ ha) b hb hab)

theorem newAddresses_grown {more : List CString} (hnodup : (old ++ more).Nodup) :
    newAddresses old (old ++ more) = more := by
  unfold newAddresses
  have hold : old.filter (· ∉ old) = [] := by
    rw [List.filter_eq_nil_iff]
    intro a ha
    simpa using ha
  have hmore : more.filter (· ∉ old) = more := by
    rw [List.filter_eq_self]
    intro a ha
    rw [decide_eq_true_iff]
    exact fun hmem => List.disjoint_of_nodup_append hnodup hmem ha
  rw [List.filter_append, hold, hmore, List.nil_append]

theorem newAddresses_replaced {left right : List CString} (hnodup : (left ++ b :: right).Nodup)
    (hne : b ≠ a) : newAddresses (left ++ a :: right) (left ++ b :: right) = [b] := by
  have hb : b ∉ left ++ a :: right := by
    rw [List.nodup_middle, List.nodup_cons, List.mem_append, not_or] at hnodup
    rw [List.mem_append, List.mem_cons, not_or, not_or]
    exact ⟨hnodup.1.1, hne, hnodup.1.2⟩
  unfold newAddresses
  have hleft : left.filter (· ∉ left ++ a :: right) = [] := by
    rw [List.filter_eq_nil_iff]
    intro x hx
    simp [hx]
  have hright : right.filter (· ∉ left ++ a :: right) = [] := by
    rw [List.filter_eq_nil_iff]
    intro x hx
    simp [hx]
  rw [List.filter_append, List.filter_cons_of_pos (by simpa using hb), hleft, hright,
    List.nil_append]

theorem Follows.room (h : Follows old row) (hnodup : row.Nodup) :
    (old ++ newAddresses old row).length ≤ maxServersPerInterface := by
  cases h with
  | grown old more hroom =>
    rw [newAddresses_grown hnodup]
    exact hroom
  | replaced left right a b hne hroom =>
    rw [newAddresses_replaced hnodup hne, List.length_append, List.length_singleton]
    exact hroom

end addresses

/-! ## The flush -/

section flush

variable {ovs : Ovs} {s : State} {p : NodePtr} {n : InterfaceNode} {rec : DhcpRelayRow}
  {rounds t : ℕ} {current : List CString}

/-- A round that finds its server in the row. -/
theorem flushFrom_found (h : CacheInv ovs s) (hp : s.intfs.nodes p = some n)
    (hkeys : s.keysAt p = current.map ucast) (ht : t < current.length)
    (hrow : rec.ipv6UcastServer[t]? = current[t]?) :
    flushFrom ovs p rec (rounds + 1) t s = flushFrom ovs p rec rounds (t + 1) s := by
  have hget : current[t]? = some current[t] := List.getElem?_eq_getElem ht
  have hk : (s.keysAt p)[t]? = some (ucast current[t]) := by
    rw [hkeys, List.getElem?_map, hget]
    rfl
  rw [hget] at hrow
  have hne : List.range rec.ipv6UcastServer.length ≠ [] := by
    rw [ne_eq, List.range_eq_nil]
    exact Nat.ne_of_gt (Nat.zero_lt_of_lt (List.getElem?_eq_some_iff.mp hrow).1)
  have hserver : rec.ucastServer t = .ok current[t] := by
    rw [DhcpRelayRow.ucastServer, hrow]
  have hself : compareServer (ucast current[t]).1 current[t] none none = true :=
    ServerKey.begins_refl (ucast current[t])
  rw [flushFrom_round h hp hk, anyM_const hne, hserver, ok_bind, hself]
  rfl

/-- The rounds before `t`, when they find their servers. -/
theorem flushFrom_walks (h : CacheInv ovs s) (hp : s.intfs.nodes p = some n)
    (hkeys : s.keysAt p = current.map ucast) (ht : t ≤ current.length)
    (hrow : ∀ i < t, rec.ipv6UcastServer[i]? = current[i]?) (rounds : ℕ) :
    flushFrom ovs p rec (t + rounds) 0 s = flushFrom ovs p rec rounds t s := by
  induction t generalizing rounds with
  | zero => rw [Nat.zero_add]
  | succ t ih =>
    rw [Nat.add_right_comm, Nat.add_assoc,
      ih (Nat.le_of_succ_le ht) (fun i hi => hrow i (Nat.lt_succ_of_lt hi)) (rounds + 1)]
    exact flushFrom_found h hp hkeys ht (hrow t (Nat.lt_succ_self t))

/-- Servers that are all in the row, at their positions, stay. -/
theorem flushFrom_stays (h : CacheInv ovs s) (hp : s.intfs.nodes p = some n)
    (hkeys : s.keysAt p = rec.ipv6UcastServer.map ucast)
    (hrounds : rec.ipv6UcastServer.length < rounds + t) (ht : t ≤ rec.ipv6UcastServer.length) :
    flushFrom ovs p rec rounds t s = .ok s := by
  induction rounds generalizing t with
  | zero => omega
  | succ rounds ih =>
    by_cases hlt : t < rec.ipv6UcastServer.length
    · rw [flushFrom_found h hp hkeys hlt rfl]
      exact ih (by omega) hlt
    · apply flushFrom_end h hp
      rw [hkeys, List.length_map]
      omega

end flush

/-! ## One row -/

section row

variable {ovs : Ovs} {ports : Finset CString} {seen : CString → CString → Prop} {s s' : State}
  {p : NodePtr} {n : InterfaceNode} {portName : CString} {rec : DhcpRelayRow}
  {old : List CString}

/-- Addresses of which each has been listed are found under no other entry. -/
theorem Listed.findsOwn (h : Listed ovs ports seen s) (hfew : ports.card ≤ 65535)
    (hapart : Apart seen) (hp : s.intfs.nodes p = some n)
    (hkeys : s.keysAt p = old.map ucast) {row : List CString}
    (hrow : ∀ a ∈ row, seen n.portName a) :
    FindsOwn ovs s.servers (storedAddresses old row) := by
  have hmem : ∀ a ∈ storedAddresses old row, a ∈ row ∧ a ∉ old := fun a ha =>
    mem_storedAddresses ha
  refine FindsOwn.of_apart h.inv.servers (fun a ha k hk hbegins => ?_) fun a ha q hq => ?_
  · obtain ⟨b, name, rfl, hb⟩ : ∃ b name, k = ucast b ∧ seen name b := by
      rcases hk with ⟨q, hq⟩ | hk
      · obtain ⟨p', hslot⟩ := h.inv.exists_slot hq
        obtain ⟨m, hm, hkey⟩ := State.key_mem hslot hq
        obtain ⟨b, hkb, hb⟩ := h.servers p' m hm k hkey
        exact ⟨b, _, hkb, hb⟩
      · obtain ⟨b, hb, rfl⟩ := List.mem_map.mp hk
        exact ⟨b, _, rfl, hrow b (hmem b hb).1⟩
    rw [hapart _ _ a b (hrow a (hmem a ha).1) hb ((ucast_begins_iff a b).mp hbegins)]
  · refine Nat.lt_of_lt_of_le (h.refs_lt hp fun hslot => ?_) hfew
    obtain ⟨-, -, hkey⟩ := State.key_mem hslot hq
    rw [hkeys] at hkey
    obtain ⟨b, hb, heq⟩ := List.mem_map.mp hkey
    obtain rfl : b = a := congrArg Prod.fst heq
    exact (hmem b ha).2 hb

/-- The flush of a row that follows. -/
theorem Listed.flushedTo (h : Listed ovs ports seen s) (hapart : Apart seen)
    (hp : s.intfs.nodes p = some n) (hfollows : Follows old rec.ipv6UcastServer)
    (hnodup : rec.ipv6UcastServer.Nodup) (hold : ApartFrom old rec.ipv6UcastServer)
    (hkeys : s.keysAt p = (old ++ newAddresses old rec.ipv6UcastServer).map ucast) :
    ∃ s', dhcpv6rFlushRemovedUcastEntries ovs s p rec = .ok s' ∧
      s'.keysAt p = rec.ipv6UcastServer.map ucast ∧
      ∃ n', s'.intfs.nodes p = some n' ∧ n'.portName = n.portName := by
  have hmax : maxServersPerInterface = 8 := rfl
  unfold dhcpv6rFlushRemovedUcastEntries
  generalize hrow : rec.ipv6UcastServer = row at *
  cases hfollows with
  | grown old more hroom =>
    rw [newAddresses_grown hnodup, ← hrow] at hkeys
    rw [← hrow] at hroom
    refine ⟨s, ?_, hrow ▸ hkeys, n, hp, rfl⟩
    exact flushFrom_stays h.inv hp hkeys (by omega) (Nat.zero_le _)
  | replaced left right a b hne hroom =>
    rw [newAddresses_replaced hnodup hne] at hkeys
    set current := (left ++ a :: right) ++ [b] with hcurrent
    have hlt : left.length < current.length := by
      rw [hcurrent, List.length_append, List.length_append, List.length_cons]
      omega
    have hget : current[left.length]? = some a := by
      rw [hcurrent, List.append_assoc, List.getElem?_append_right (Nat.le_refl _), Nat.sub_self]
      rfl
    have hk : (s.keysAt p)[left.length]? = some (ucast a) := by
      rw [hkeys, List.getElem?_map, hget]
      rfl
    -- the first rounds find their servers, and the next one does not
    have hbefore : ∀ i < left.length, rec.ipv6UcastServer[i]? = current[i]? := by
      intro i hi
      rw [hrow, hcurrent, List.append_assoc, List.getElem?_append_left hi,
        List.getElem?_append_left hi]
    have hserver : rec.ucastServer left.length = .ok b := by
      rw [DhcpRelayRow.ucastServer, hrow, List.getElem?_append_right (Nat.le_refl _), Nat.sub_self]
      rfl
    have hother : compareServer (ucast a).1 b none none = false := by
      refine Bool.eq_false_iff.mpr fun hbegins => hne ?_
      exact (hold a (by simp) b (by simp) ((ucast_begins_iff a b).mp hbegins)).symm
    have hnonempty : List.range rec.ipv6UcastServer.length ≠ [] := by
      rw [ne_eq, List.range_eq_nil, hrow]
      simp
    obtain ⟨hi, hka⟩ := List.getElem?_eq_some_iff.mp hk
    obtain ⟨s', hrun, hlisted, hswap, -, hstays⟩ := h.removed hapart hp hi
    rw [hka] at hrun
    have hlen : (s.keysAt p).length = left.length + right.length + 2 := by
      rw [hkeys, List.length_map, hcurrent]
      simp only [List.length_append, List.length_cons, List.length_nil]
      omega
    obtain ⟨n', hp', hname⟩ := hstays (by omega)
    have hkeys' : s'.keysAt p = rec.ipv6UcastServer.map ucast := by
      rw [hswap, hkeys, ← map_swapErase, hcurrent, swapErase_append_singleton, hrow,
        List.set_append_right _ _ (Nat.le_refl _), Nat.sub_self, List.set_cons_zero]
    refine ⟨s', ?_, hrow ▸ hkeys', n', hp', hname⟩
    rw [List.length_append, List.length_cons] at hroom
    have hrounds : 256 = left.length + (255 - left.length + 1) := by omega
    rw [hrounds, flushFrom_walks h.inv hp hkeys (Nat.le_of_lt hlt) hbefore,
      flushFrom_round h.inv hp hk, anyM_const hnonempty, hserver, ok_bind, hother]
    show (dhcpv6rRemoveAddress ovs s p (ucast a).1 (ucast a).2 >>= fun r =>
      flushFrom ovs p rec (255 - left.length) (left.length + 1) r.2) = _
    rw [hrun]
    have hrowlen : rec.ipv6UcastServer.length = left.length + right.length + 1 := by
      rw [hrow, List.length_append, List.length_cons]
      omega
    exact flushFrom_stays hlisted.inv hp' hkeys' (by omega) (by omega)

/-- The handler at a row that follows. -/
theorem Listed.followed (h : Listed ovs ports seen s) (hfew : ports.card ≤ 65535)
    (hapart : Apart seen) {vrf : CString} (hport : rec.port = some portName)
    (hvrf : rec.vrf = some vrf) (hmem : portName ∈ ports)
    (hrow : ∀ a ∈ rec.ipv6UcastServer, seen portName a) (hnodup : rec.ipv6UcastServer.Nodup)
    (hheld : s.heldBy portName = old.map ucast) (hfollows : Follows old rec.ipv6UcastServer) :
    ∃ s', dhcpv6rHandleConfigChange ovs s rec true = .ok s' ∧ Listed ovs ports seen s' ∧
      s'.heldBy portName = rec.ipv6UcastServer.map ucast ∧
      ∀ other, other ≠ portName → s'.heldBy other = s.heldBy other := by
  have hold : ApartFrom old rec.ipv6UcastServer := by
    intro x hx y hy hxy
    refine hapart portName portName x y ?_ (hrow y hy) hxy
    rcases List.mem_append.mp hx with hx | hx
    · obtain ⟨a, hka, ha⟩ := (h.heldBy portName).2 _ (hheld ▸ List.mem_map_of_mem hx)
      obtain rfl : x = a := congrArg Prod.fst hka
      exact ha
    · exact hrow x hx
  obtain ⟨p, s₁, n, hp, -, htouch₁, hkeys₁, hname, heq⟩ :=
    dhcpv6rHandleConfigChange_eq h.inv hport hvrf
  have hs₁ := h.looked htouch₁ hmem hkeys₁
  obtain rfl := htouch₁.name n hp
  rw [hheld] at hkeys₁
  -- the new addresses are stored behind the old ones
  have hown := hs₁.findsOwn hfew hapart hp hkeys₁ hrow
  obtain ⟨s₂, hadd, htouch₂, -, hkeys₂⟩ :=
    dhcpv6rGetUcastEntriesAdded_eq hown hnodup hs₁.inv hp rfl hkeys₁
  obtain ⟨s₂', hadd', hs₂, n₂, hp₂, hname₂⟩ := hs₁.added hfew hapart hp hrow
  obtain rfl : s₂ = s₂' := Except.ok.inj (hadd.symm.trans hadd')
  rw [(TakesNew.of_apart hnodup hold (hfollows.room hnodup)).foldl_eq hnodup] at hkeys₂
  -- and the flush leaves those of the row
  obtain ⟨s', hflush, hkeys', n', hp', hname'⟩ :=
    hs₂.flushedTo hapart hp₂ hfollows hnodup hold hkeys₂
  have hs' : Meets Fault.MayStop (Listed ovs ports seen)
      (dhcpv6rFlushRemovedUcastEntries ovs s₂ p rec) :=
    hs₂.flushed hapart hp₂ rfl (Nat.zero_le _)
  rw [hflush] at hs'
  have hplain : ∀ k ∈ s₂.keysAt p, k.2 = none := by
    intro k hk
    obtain ⟨a, rfl, -⟩ := hs₂.servers p n₂ hp₂ k hk
    rfl
  obtain ⟨htouch₃, -, -⟩ := flushFrom_ok hs₂.inv hp₂ hname₂ hplain hflush
  refine ⟨s', ?_, hs', ?_, fun other hother => ?_⟩
  · rw [heq, hadd, ok_bind, hflush]
  · rw [← hkeys', ← hname₂, ← hname']
    exact CacheInv.heldBy_eq hs'.inv hp'
  · unfold State.heldBy
    rw [((htouch₁.trans htouch₂).trans htouch₃).interface_eq h.inv hname hother]

/-- The handler when the column has not changed. -/
theorem Listed.unmodified (h : Listed ovs ports seen s) {vrf : CString}
    (hport : rec.port = some portName) (hvrf : rec.vrf = some vrf) (hmem : portName ∈ ports) :
    ∃ s', dhcpv6rHandleConfigChange ovs s rec false = .ok s' ∧ Listed ovs ports seen s' ∧
      ∀ name, s'.heldBy name = s.heldBy name := by
  obtain ⟨p, s', n, hp, htouches, hkeys, hold, heq⟩ :=
    dhcpv6rHandleConfigChange_unmodified h.inv hport hvrf
  refine ⟨s', heq, h.looked htouches hmem hkeys, fun name => ?_⟩
  by_cases hname : name = portName
  · subst hname
    rw [← hkeys, ← htouches.name n hp]
    exact CacheInv.heldBy_eq htouches.inv hp
  · unfold State.heldBy
    rw [htouches.interface_eq h.inv hold hname]

end row

/-! ## One table -/

/-- The addresses of the row of an interface, none without one. -/
def addressesOf (rows : List DhcpRelayRow) (name : CString) : List CString :=
  ((rows.find? (·.port = some name)).map (·.ipv6UcastServer)).getD []

/-- One row for each interface, with a set of addresses. -/
structure Keyed (rows : List DhcpRelayRow) : Prop where
  complete : ∀ rec ∈ rows, rec.port ≠ none ∧ rec.vrf ≠ none
  ports : (rows.map (·.port)).Nodup
  sets : ∀ rec ∈ rows, rec.ipv6UcastServer.Nodup

instance (rows : List DhcpRelayRow) (name : CString) : Decidable (HasRow rows name) :=
  inferInstanceAs (Decidable (∃ rec ∈ rows, _))

instance (rows : List DhcpRelayRow) (name : CString) : Decidable (PrefixRow rows name) :=
  decidable_of_iff _ (rowFound_iff rows name)

/-- What the flags say about the table since it had the rows `old`. They may be set for nothing. -/
structure Reported (old : List DhcpRelayRow) (poll : Poll) : Prop where
  quiet : ∀ rec ∈ poll.table.rows, (rec.inserted || rec.modified) = false → ∀ name,
    rec.row.port = some name → addressesOf old name = rec.row.ipv6UcastServer
  anyChanged : ∀ rec ∈ poll.table.rows, (rec.inserted || rec.modified) = true →
    (poll.table.anyInserted || poll.table.anyModified) = true
  anyDeleted : ∀ rec ∈ old, ∀ name, rec.port = some name → ¬HasRow poll.rows name →
    poll.table.anyDeleted = true
  column : poll.ucastServerModified = false → ∀ rec ∈ poll.rows, ∀ name,
    rec.port = some name → addressesOf old name = rec.ipv6UcastServer

/-- Every row follows from what its interface had. A row that goes had one address at most, and
leaves no row whose port name its own begins with. -/
structure Grows (old new : List DhcpRelayRow) : Prop where
  follows : ∀ rec ∈ new, ∀ name, rec.port = some name →
    Follows (addressesOf old name) rec.ipv6UcastServer
  deleted : ∀ rec ∈ old, ∀ name, rec.port = some name → ¬HasRow new name →
    addressesOf old name = [] ∨ ((addressesOf old name).length = 1 ∧ ¬PrefixRow new name)

/-- A call that the daemon follows, after one at which the table had the rows `old`. -/
structure GrowingPoll (old : List DhcpRelayRow) (poll : Poll) : Prop where
  keyed : Keyed poll.rows
  reported : Reported old poll
  grows : Grows old poll.rows

theorem addressesOf_none {rows : List DhcpRelayRow} {name : CString} (h : ¬HasRow rows name) :
    addressesOf rows name = [] := by
  have hnone : rows.find? (·.port = some name) = none := by
    rw [List.find?_eq_none]
    intro rec hrec hport
    exact h ⟨rec, hrec, of_decide_eq_true hport⟩
  rw [addressesOf, hnone]
  rfl

theorem Keyed.addressesOf_eq {rows : List DhcpRelayRow} (h : Keyed rows) {rec : DhcpRelayRow}
    {name : CString} (hrec : rec ∈ rows) (hport : rec.port = some name) :
    addressesOf rows name = rec.ipv6UcastServer := by
  have hsome : (rows.find? (·.port = some name)).isSome := by
    rw [List.find?_isSome]
    exact ⟨rec, hrec, decide_eq_true hport⟩
  obtain ⟨found, hfind⟩ := Option.isSome_iff_exists.mp hsome
  have hfound : found.port = some name := of_decide_eq_true (List.find?_some hfind :)
  obtain rfl : found = rec := List.inj_on_of_nodup_map h.ports
    (List.mem_of_find?_eq_some hfind) hrec (hfound.trans hport.symm)
  rw [addressesOf, hfind]
  rfl

section poll

variable {ovs : Ovs} {ports : Finset CString} {seen : CString → CString → Prop} {s s' : State}
  {old : List DhcpRelayRow} {poll : Poll}

/-- The interfaces without a row go, and the others stay. -/
theorem Listed.cleared (h : Listed ovs ports seen s) (hapart : Apart seen)
    (hheld : ∀ name, s.heldBy name = (addressesOf old name).map ucast)
    {rows : List DhcpRelayRow} (hgrows : Grows old rows) :
    ∃ s', dhcpv6rHandleRowDelete ovs s rows = .ok s' ∧ Listed ovs ports seen s' ∧
      ∀ name, (HasRow rows name → s'.heldBy name = (addressesOf old name).map ucast) ∧
        (¬HasRow rows name → s'.heldBy name = []) := by
  have hdeleted : ∀ name, ¬HasRow rows name → addressesOf old name = [] ∨
      ((addressesOf old name).length = 1 ∧ ¬PrefixRow rows name) := by
    intro name hnot
    by_cases hrow : HasRow old name
    · obtain ⟨rec, hrec, hport⟩ := hrow
      exact hgrows.deleted rec hrec name hport hnot
    · exact Or.inl (addressesOf_none hrow)
  have hfits : ∀ e ∈ s.intfs.intfHashTable, ¬SlotsRunOut rows e (s.view e.2) := by
    rintro e he ⟨hnot, hlen⟩
    obtain ⟨n, hp, hname⟩ := (h.inv.intfs.listed e.1 e.2).mp he
    have hkeys : s.keysAt e.2 = (addressesOf old e.1).map ucast := by
      rw [← hheld, ← hname]
      exact (h.inv.heldBy_eq hp).symm
    have hlen : 2 ≤ (s.keysAt e.2).length := hlen
    rw [hkeys, List.length_map] at hlen
    rcases hdeleted e.1 (mt (PrefixRow.of_hasRow rows) hnot) with hnil | ⟨hone, -⟩
    · rw [hnil] at hlen
      exact absurd hlen (by simp)
    · omega
  obtain ⟨s', hrun, habsent, hpresent⟩ := rowDelete_interface rows ⟨s, h.inv⟩ hfits
  have hlisted := h.rowsDeleted hapart rows
  rw [hrun] at hlisted
  refine ⟨s', hrun, hlisted, fun name => ?_⟩
  rw [← hheld]
  unfold State.heldBy
  cases hintf : s.interface name with
  | none =>
    rw [habsent name hintf]
    exact ⟨fun _ => rfl, fun _ => rfl⟩
  | some intf =>
    obtain ⟨hkept, hgone⟩ := hpresent name intf.1 intf.2 hintf
    have hservers : intf.2 = (addressesOf old name).map ucast := by
      rw [← hheld, State.heldBy, hintf]
      rfl
    refine ⟨fun hrow => by rw [hkept (Or.inl (PrefixRow.of_hasRow rows hrow))], fun hrow => ?_⟩
    rcases hdeleted name hrow with hnil | ⟨hone, hnot⟩
    · rw [hnil] at hservers
      rw [hkept (Or.inr hservers)]
      exact hservers
    · rw [hgone]
      · rfl
      · rintro (hcase | hcase)
        · exact hnot hcase
        · rw [hcase] at hservers
          rw [List.map_eq_nil_iff.mp hservers.symm] at hone
          exact absurd hone (by simp)

/-- The visit of a row. -/
theorem Listed.visited (h : Listed ovs ports seen s) (hfew : ports.card ≤ 65535)
    (hapart : Apart seen) (hpoll : GrowingPoll old poll)
    (hports : ∀ rec ∈ poll.rows, ∀ name, rec.port = some name → name ∈ ports)
    (hrows : ∀ rec ∈ poll.rows, ∀ name, rec.port = some name →
      ∀ a ∈ rec.ipv6UcastServer, seen name a)
    {rec : Udpfwd.IdlRow DhcpRelayRow} (hrec : rec ∈ poll.table.rows) {name : CString}
    (hport : rec.row.port = some name)
    (hheld : s.heldBy name = (addressesOf old name).map ucast) :
    ∃ s', (if rec.inserted || rec.modified then
        dhcpv6rHandleConfigChange ovs s rec.row poll.ucastServerModified
        else pure s) = .ok s' ∧ Listed ovs ports seen s' ∧
      s'.heldBy name = rec.row.ipv6UcastServer.map ucast ∧
      ∀ other, other ≠ name → s'.heldBy other = s.heldBy other := by
  have hmem : rec.row ∈ poll.rows := List.mem_map_of_mem hrec
  obtain ⟨vrf, hvrf⟩ := Option.ne_none_iff_exists'.mp (hpoll.keyed.complete rec.row hmem).2
  by_cases hflag : (rec.inserted || rec.modified) = true
  · rw [if_pos hflag]
    cases hcolumn : poll.ucastServerModified with
    | true =>
      exact h.followed hfew hapart hport hvrf (hports rec.row hmem name hport)
        (hrows rec.row hmem name hport) (hpoll.keyed.sets rec.row hmem) hheld
        (hpoll.grows.follows rec.row hmem name hport)
    | false =>
      obtain ⟨s', hrun, hlisted, hsame⟩ := h.unmodified hport hvrf (hports rec.row hmem name hport)
      refine ⟨s', hrun, hlisted, ?_, fun other _ => hsame other⟩
      rw [hsame, hheld, hpoll.reported.column hcolumn rec.row hmem name hport]
  · rw [if_neg hflag]
    refine ⟨s, rfl, h, ?_, fun other _ => rfl⟩
    rw [hheld, hpoll.reported.quiet rec hrec (Bool.eq_false_iff.mpr hflag) name hport]

/-- The visits of rows for different interfaces. -/
theorem Listed.visits (hfew : ports.card ≤ 65535) (hapart : Apart seen)
    (hpoll : GrowingPoll old poll)
    (hports : ∀ rec ∈ poll.rows, ∀ name, rec.port = some name → name ∈ ports)
    (hrows : ∀ rec ∈ poll.rows, ∀ name, rec.port = some name →
      ∀ a ∈ rec.ipv6UcastServer, seen name a)
    (recs : List (Udpfwd.IdlRow DhcpRelayRow)) (hrecs : ∀ rec ∈ recs, rec ∈ poll.table.rows)
    (hnodup : (recs.map fun rec => rec.row.port).Nodup) (h : Listed ovs ports seen s)
    (hheld : ∀ rec ∈ recs, ∀ name, rec.row.port = some name →
      s.heldBy name = (addressesOf old name).map ucast) :
    ∃ s', recs.foldlM (fun s rec =>
        if rec.inserted || rec.modified then
          dhcpv6rHandleConfigChange ovs s rec.row poll.ucastServerModified
        else pure s) s = .ok s' ∧ Listed ovs ports seen s' ∧
      (∀ rec ∈ recs, ∀ name, rec.row.port = some name →
        s'.heldBy name = rec.row.ipv6UcastServer.map ucast) ∧
      ∀ name, (∀ rec ∈ recs, rec.row.port ≠ some name) → s'.heldBy name = s.heldBy name := by
  induction recs generalizing s with
  | nil => exact ⟨s, rfl, h, fun rec hrec => absurd hrec List.not_mem_nil, fun _ _ => rfl⟩
  | cons rec recs ih =>
    obtain ⟨hnot, hnodup⟩ := List.nodup_cons.mp hnodup
    have hrec := hrecs rec List.mem_cons_self
    obtain ⟨name, hport⟩ := Option.ne_none_iff_exists'.mp
      (hpoll.keyed.complete rec.row (List.mem_map_of_mem hrec)).1
    obtain ⟨s₁, hrun, hs₁, hname, hothers⟩ := h.visited hfew hapart hpoll hports hrows hrec hport
      (hheld rec List.mem_cons_self name hport)
    -- the other rows are about other interfaces
    have hne : ∀ rec' ∈ recs, rec'.row.port ≠ some name := by
      intro rec' hrec' hport'
      exact hnot (List.mem_map.mpr ⟨rec', hrec', hport'.trans hport.symm⟩)
    obtain ⟨s', hrest, hs', hvisited, hrest'⟩ := ih
      (fun r hr => hrecs r (List.mem_cons_of_mem _ hr)) hnodup hs₁ fun rec' hrec' name' hport' => by
        have hother : name' ≠ name := fun heq => hne rec' hrec' (heq ▸ hport')
        rw [hothers name' hother]
        exact hheld rec' (List.mem_cons_of_mem _ hrec') name' hport'
    refine ⟨s', ?_, hs', fun rec' hrec' name' hport' => ?_, fun name' hnone => ?_⟩
    · rw [List.foldlM_cons, hrun]
      exact hrest
    · rcases List.mem_cons.mp hrec' with rfl | hrec'
      · obtain rfl : name' = name := Option.some.inj (hport'.symm.trans hport)
        rw [hrest' name' hne]
        exact hname
      · exact hvisited rec' hrec' name' hport'
    · rw [hrest' name' fun r hr => hnone r (List.mem_cons_of_mem _ hr)]
      refine hothers name' fun heq => hnone rec List.mem_cons_self ?_
      rw [heq]
      exact hport

/-- A call at which the table has grown. -/
theorem Listed.polled (h : Listed ovs ports seen s) (hfew : ports.card ≤ 65535)
    (hapart : Apart seen) (hpoll : GrowingPoll old poll)
    (hports : ∀ rec ∈ poll.rows, ∀ name, rec.port = some name → name ∈ ports)
    (hrows : ∀ rec ∈ poll.rows, ∀ name, rec.port = some name →
      ∀ a ∈ rec.ipv6UcastServer, seen name a)
    (hheld : ∀ name, s.heldBy name = (addressesOf old name).map ucast) :
    ∃ s', dhcpv6rReconfigure ovs s poll = .ok s' ∧ Listed ovs ports seen s' ∧
      ∀ name, s'.heldBy name = (addressesOf poll.rows name).map ucast := by
  -- what is left is to visit the rows, in a state without the interfaces that have none
  have hvisits : ∀ s₁, Listed ovs ports seen s₁ →
      (∀ name, (HasRow poll.rows name → s₁.heldBy name = (addressesOf old name).map ucast) ∧
        (¬HasRow poll.rows name → s₁.heldBy name = [])) →
      ∃ s', poll.table.rows.foldlM (fun s rec =>
          if rec.inserted || rec.modified then
            dhcpv6rHandleConfigChange ovs s rec.row poll.ucastServerModified
          else pure s) s₁ = .ok s' ∧ Listed ovs ports seen s' ∧
        ∀ name, s'.heldBy name = (addressesOf poll.rows name).map ucast := by
    intro s₁ hs₁ hcleared
    have hnodup : (poll.table.rows.map fun rec => rec.row.port).Nodup := by
      have hnodup := hpoll.keyed.ports
      rw [Poll.rows, List.map_map] at hnodup
      exact hnodup
    obtain ⟨s', hrun, hs', hvisited, hother⟩ := Listed.visits hfew hapart hpoll hports hrows
      poll.table.rows (fun _ hrec => hrec) hnodup hs₁ fun rec hrec name hport =>
        (hcleared name).1 ⟨rec.row, List.mem_map_of_mem hrec, hport⟩
    refine ⟨s', hrun, hs', fun name => ?_⟩
    by_cases hrow : HasRow poll.rows name
    · obtain ⟨row, hrow, hport⟩ := hrow
      obtain ⟨rec, hrec, rfl⟩ := List.mem_map.mp hrow
      rw [hvisited rec hrec name hport, hpoll.keyed.addressesOf_eq hrow hport]
    · rw [hother name fun rec hrec hport => hrow ⟨rec.row, List.mem_map_of_mem hrec, hport⟩,
        (hcleared name).2 hrow, addressesOf_none hrow]
      rfl
  -- without a deletion every interface has a row
  have hkept : poll.table.anyDeleted = false → ∀ name,
      (HasRow poll.rows name → s.heldBy name = (addressesOf old name).map ucast) ∧
        (¬HasRow poll.rows name → s.heldBy name = []) := by
    intro hflag name
    refine ⟨fun _ => hheld name, fun hnone => ?_⟩
    have hold : ¬HasRow old name := by
      rintro ⟨rec, hrec, hport⟩
      rw [hpoll.reported.anyDeleted rec hrec name hport hnone] at hflag
      exact absurd hflag (by simp)
    rw [hheld, addressesOf_none hold]
    rfl
  obtain ⟨s₁, hdelete, hs₁, hcleared⟩ := h.cleared hapart hheld hpoll.grows
  unfold dhcpv6rReconfigure dhcpv6rServerConfigUpdate
  by_cases hempty : poll.table.rows.isEmpty = true
  · rw [if_pos hempty, hdelete]
    refine ⟨s₁, rfl, hs₁, fun name => ?_⟩
    have hnone : ¬HasRow poll.rows name := by
      rintro ⟨row, hrow, -⟩
      rw [Poll.rows, List.isEmpty_iff.mp hempty] at hrow
      exact absurd hrow List.not_mem_nil
    rw [(hcleared name).2 hnone, addressesOf_none hnone]
    rfl
  rw [if_neg hempty]
  by_cases hflags : (!poll.table.anyInserted && !poll.table.anyDeleted &&
      !poll.table.anyModified) = true
  · -- no row has a flag
    rw [if_pos hflags]
    simp only [Bool.and_eq_true, Bool.not_eq_true'] at hflags
    refine ⟨s, rfl, h, fun name => ?_⟩
    by_cases hrow : HasRow poll.rows name
    · obtain ⟨row, hrow, hport⟩ := hrow
      obtain ⟨rec, hrec, rfl⟩ := List.mem_map.mp hrow
      have hquiet : (rec.inserted || rec.modified) = false := by
        refine Bool.eq_false_iff.mpr fun hflag => ?_
        have hany := hpoll.reported.anyChanged rec hrec hflag
        rw [hflags.1.1, hflags.2] at hany
        exact absurd hany (by simp)
      rw [hheld, hpoll.reported.quiet rec hrec hquiet name hport,
        hpoll.keyed.addressesOf_eq hrow hport]
    · rw [(hkept hflags.1.2 name).2 hrow, addressesOf_none hrow]
      rfl
  · rw [if_neg hflags]
    cases hdeleted : poll.table.anyDeleted with
    | true =>
      obtain ⟨s', hrun, hs'⟩ := hvisits s₁ hs₁ hcleared
      refine ⟨s', ?_, hs'⟩
      show (dhcpv6rHandleRowDelete ovs s poll.rows >>= _) = _
      rw [hdelete]
      exact hrun
    | false => exact hvisits s h (hkept hdeleted)

end poll

/-! ## Runs -/

/-- The daemon follows every table of the sequence, after one with the rows `old`. -/
def GrowingPolls : List DhcpRelayRow → List Poll → Prop
  | _, [] => True
  | old, poll :: polls => GrowingPoll old poll ∧ GrowingPolls poll.rows polls

/-- The rows at the last call. -/
def lastRows (polls : List Poll) : List DhcpRelayRow :=
  (polls.getLast?.map Poll.rows).getD []

theorem Listed.growing {ovs : Ovs} {ports : Finset CString} {seen : CString → CString → Prop}
    (hfew : ports.card ≤ 65535) (hapart : Apart seen) (polls : List Poll)
    (hports : ∀ poll ∈ polls, ∀ rec ∈ poll.rows, ∀ name, rec.port = some name → name ∈ ports)
    (hrows : ∀ poll ∈ polls, ∀ rec ∈ poll.rows, ∀ name, rec.port = some name →
      ∀ a ∈ rec.ipv6UcastServer, seen name a)
    {old : List DhcpRelayRow} {s : State} (h : Listed ovs ports seen s)
    (hheld : ∀ name, s.heldBy name = (addressesOf old name).map ucast)
    (hgrowing : GrowingPolls old polls) :
    ∃ s', polls.foldlM (dhcpv6rReconfigure ovs) s = .ok s' ∧ ∀ name,
      s'.heldBy name =
        (addressesOf ((polls.getLast?.map Poll.rows).getD old) name).map ucast := by
  induction polls generalizing old s with
  | nil => exact ⟨s, rfl, hheld⟩
  | cons poll polls ih =>
    obtain ⟨hpoll, hgrowing⟩ := hgrowing
    obtain ⟨s₁, hrun, hs₁, hheld₁⟩ := h.polled hfew hapart hpoll
      (hports poll List.mem_cons_self) (hrows poll List.mem_cons_self) hheld
    obtain ⟨s', hrest, hheld'⟩ := ih (fun p hp => hports p (List.mem_cons_of_mem _ hp))
      (fun p hp => hrows p (List.mem_cons_of_mem _ hp)) hs₁ hheld₁ hgrowing
    refine ⟨s', ?_, fun name => ?_⟩
    · rw [List.foldlM_cons, hrun]
      exact hrest
    · rw [hheld', List.getLast?_cons]
      cases polls.getLast? with
      | none => rfl
      | some last => rfl

/-- Over tables whose rows grow, the daemon does not fault, and in the end each interface holds
the servers of its row. -/
theorem rows_of_growing_polls (ovs : Ovs) (polls : List Poll) (ports : Finset CString)
    (hfew : ports.card ≤ 65535)
    (hports : ∀ poll ∈ polls, ∀ rec ∈ poll.rows, ∀ name, rec.port = some name → name ∈ ports)
    (hapart : Apart (SeenIn polls)) (hgrowing : GrowingPolls [] polls) :
    ∃ s, runPolls ovs polls = .ok s ∧
      ∀ name, s.heldBy name = (addressesOf (lastRows polls) name).map ucast := by
  have hempty : Listed ovs ports (SeenIn polls) State.empty := Listed.empty
  refine Listed.growing hfew hapart polls hports ?_ hempty (fun _ => rfl) hgrowing
  exact fun poll hpoll rec hrec name hport a ha => ⟨poll, hpoll, rec, hrec, hport, ha⟩

/-- Two rows, of which one grows while the address of the other is replaced, and this row is then
deleted. -/
def growingPolls : List Poll :=
  let row (port : String) (servers : List String) : DhcpRelayRow :=
    ⟨some port.toList, some "vrf_default".toList, servers.map String.toList⟩
  [⟨⟨[⟨row "1" ["2001:db8::1"], true, false⟩, ⟨row "2" ["2001:db8::2"], true, false⟩],
      true, false, false⟩, true⟩,
    ⟨⟨[⟨row "1" ["2001:db8::1", "2001:db8::3"], false, true⟩,
      ⟨row "2" ["2001:db8::4"], false, true⟩], false, false, true⟩, true⟩,
    ⟨⟨[⟨row "1" ["2001:db8::1", "2001:db8::3"], false, false⟩], false, true, false⟩, false⟩]

theorem rows_of_growing_polls_replaced :
    ∃ s, runPolls exampleOvs growingPolls = .ok s ∧
      ∀ name, s.heldBy name = (addressesOf (lastRows growingPolls) name).map ucast := by
  refine rows_of_growing_polls exampleOvs growingPolls {"1".toList, "2".toList} (by decide)
    (by decide) (apart_of_addresses (by decide)) ?_
  refine ⟨⟨⟨by decide, by decide, by decide⟩, ⟨by decide, by decide, by decide, by decide⟩,
      ⟨?_, by decide⟩⟩,
    ⟨⟨by decide, by decide, by decide⟩, ⟨by decide, by decide, by decide, by decide⟩,
      ⟨?_, by decide⟩⟩,
    ⟨⟨by decide, by decide, by decide⟩, ⟨by decide, by decide, by decide, by decide⟩,
      ⟨?_, by decide⟩⟩, trivial⟩
  · rintro rec hrec name -
    have hroom : ∀ rec ∈ (growingPolls.head (by decide)).rows,
        ([] ++ rec.ipv6UcastServer).length ≤ maxServersPerInterface := by decide
    exact .grown [] rec.ipv6UcastServer (hroom rec hrec)
  · refine List.forall_mem_cons.mpr ⟨?_, List.forall_mem_singleton.mpr ?_⟩
    · rintro name ⟨⟩
      exact .grown ["2001:db8::1".toList] ["2001:db8::3".toList] (by decide)
    · rintro name ⟨⟩
      exact .replaced [] [] "2001:db8::2".toList "2001:db8::4".toList (by decide) (by decide)
  · refine List.forall_mem_singleton.mpr ?_
    rintro name ⟨⟩
    exact .grown ["2001:db8::1".toList, "2001:db8::3".toList] [] (by decide)

end Dhcpv6r
end IpApps
