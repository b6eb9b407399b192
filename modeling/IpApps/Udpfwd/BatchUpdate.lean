import IpApps.Udpfwd.RowDelete
import Mathlib.Data.List.Pairwise

/-!
# Batched updates

`udp_bcast_forwarder_server_config_update` deletes what no row keeps and then visits the
changed rows one after the other. Between two visits an interface may hold servers of old
and of new rows at once, and a server that finds no free slot then is never stored.
-/

namespace IpApps
namespace Udpfwd

open ExceptLoops

/-! ## One visit -/

/-- A row the handler acts on, for the interface of its port. -/
def UdpBcastForwarderRow.CompleteFor (rec : UdpBcastForwarderRow) (portName : CString) : Prop :=
  rec.srcPort = some portName ∧ rec.destVrf ≠ none

instance (rec : UdpBcastForwarderRow) (portName : CString) :
    Decidable (rec.CompleteFor portName) :=
  inferInstanceAs (Decidable (_ ∧ _))

/-- The port under which the servers of a row are stored. -/
def UdpBcastForwarderRow.storedPort (rec : UdpBcastForwarderRow) : UInt16 :=
  UInt16.ofNat (rec.udpDport % 65536).toNat

/-- The port of the row is the number of a port other than `DHCPS_PORT`. -/
def UdpBcastForwarderRow.ForwardPort (rec : UdpBcastForwarderRow) : Prop :=
  rec.udpDport = rec.storedPort.toNat ∧ rec.storedPort ≠ dhcpsPort

instance (rec : UdpBcastForwarderRow) : Decidable rec.ForwardPort :=
  inferInstanceAs (Decidable (_ ∧ _))

/-- The servers of an interface after a visit: the array takes as many new servers as it
has free slots. -/
def visitRow (portName : CString) (held : Multiset ServerKey) (rec : UdpBcastForwarderRow) :
    Multiset ServerKey :=
  if rec.CompleteFor portName then
    rowKept held rec.ipv4UcastServer rec.storedPort +
      ((rowNew held rec.ipv4UcastServer rec.storedPort).take
        (maxUdpBcastServerPerInterface -
          (rowKept held rec.ipv4UcastServer rec.storedPort).card) : List ServerKey)
  else held

/-- All new servers of the row are among those that find a free slot. -/
def RowFits (held : Multiset ServerKey) (rec : UdpBcastForwarderRow) : Prop :=
  ∀ k ∈ rowNew held rec.ipv4UcastServer rec.storedPort,
    k ∈ (rowNew held rec.ipv4UcastServer rec.storedPort).take
      (maxUdpBcastServerPerInterface - (rowKept held rec.ipv4UcastServer rec.storedPort).card)

section visit

variable {portName : CString} {held : Multiset ServerKey} {rec : UdpBcastForwarderRow}

/-- A visit changes the servers on the row's port only. -/
theorem filter_visitRow {port : UInt16}
    (hport : ¬(rec.CompleteFor portName ∧ port = rec.storedPort)) :
    (visitRow portName held rec).filter (·.2 = port) = held.filter (·.2 = port) := by
  unfold visitRow
  split
  · rename_i hcomplete
    have hne : port ≠ rec.storedPort := fun heq => hport ⟨hcomplete, heq⟩
    have hnil : (((rowNew held rec.ipv4UcastServer rec.storedPort).take
        (maxUdpBcastServerPerInterface -
          (rowKept held rec.ipv4UcastServer rec.storedPort).card) : List ServerKey) :
        Multiset ServerKey).filter (·.2 = port) = 0 := by
      rw [Multiset.filter_eq_nil]
      intro k hk heq
      have hstored := (mem_rowNew.mp (List.mem_of_mem_take (Multiset.mem_coe.mp hk))).2.2
      exact hne (heq.symm.trans hstored)
    rw [Multiset.filter_add, hnil, add_zero, rowKept, Multiset.filter_filter]
    apply Multiset.filter_congr
    intro k _
    exact ⟨fun hcase => hcase.1, fun heq => ⟨heq, Or.inl (heq.trans_ne hne)⟩⟩
  · rfl

/-- On the row's port only addresses of the row are left. -/
theorem mem_of_mem_visitRow (hcomplete : rec.CompleteFor portName) {id : IpAddress}
    (hmem : (id, rec.storedPort) ∈ visitRow portName held rec) :
    id ∈ validAddresses rec.ipv4UcastServer := by
  rw [visitRow, if_pos hcomplete, Multiset.mem_add, Multiset.mem_coe, rowKept,
    Multiset.mem_filter] at hmem
  rcases hmem with ⟨_, hport | hid⟩ | hnew
  · exact absurd rfl hport
  · exact hid
  · exact (mem_rowNew.mp (List.mem_of_mem_take hnew)).1

/-- All addresses of the row are there if and only if its new servers fitted. -/
theorem rowFits_iff (hcomplete : rec.CompleteFor portName) :
    RowFits held rec ↔ ∀ id ∈ validAddresses rec.ipv4UcastServer,
      (id, rec.storedPort) ∈ visitRow portName held rec := by
  rw [visitRow, if_pos hcomplete]
  constructor
  · intro hfits id hid
    rw [Multiset.mem_add, Multiset.mem_coe, rowKept, Multiset.mem_filter]
    by_cases hmem : (id, rec.storedPort) ∈ held
    · exact Or.inl ⟨hmem, Or.inr hid⟩
    · exact Or.inr (hfits _ (mem_rowNew.mpr ⟨hid, hmem, rfl⟩))
  · intro hall k hk
    obtain ⟨hid, hnot, hport⟩ := mem_rowNew.mp hk
    have hmem := hall k.1 hid
    rw [← hport, Multiset.mem_add, Multiset.mem_coe, rowKept, Multiset.mem_filter] at hmem
    rcases hmem with hkept | hnew
    · exact absurd hkept.1 hnot
    · exact hport ▸ hnew

end visit

/-! ## The visits of one interface -/

section visits

variable {portName : CString} {held : Multiset ServerKey} {rows : List UdpBcastForwarderRow}

/-- No two rows have one port and one port number. -/
def OneRowPerPort (rows : List UdpBcastForwarderRow) : Prop :=
  rows.Pairwise fun rec rec' =>
    rec.srcPort ≠ none → rec.srcPort = rec'.srcPort → rec.udpDport ≠ rec'.udpDport

/-- A row is determined by its interface and its port. -/
theorem OneRowPerPort.eq_of_port (h : OneRowPerPort rows) {rec rec' : UdpBcastForwarderRow}
    (hrec : rec ∈ rows) (hrec' : rec' ∈ rows) (hcomplete : rec.CompleteFor portName)
    (hcomplete' : rec'.CompleteFor portName) (hport : rec.udpDport = rec'.udpDport) :
    rec = rec' := by
  by_contra hne
  have hsymm : Std.Symm fun rec rec' : UdpBcastForwarderRow =>
      rec.srcPort ≠ none → rec.srcPort = rec'.srcPort → rec.udpDport ≠ rec'.udpDport :=
    ⟨fun r r' hr hsome heq => (hr (heq ▸ hsome) heq.symm).symm⟩
  have hdistinct := List.Pairwise.forall h hrec hrec' hne
  refine hdistinct ?_ ?_ hport
  · rw [hcomplete.1]
    simp
  · rw [hcomplete.1, hcomplete'.1]

/-- Where no visited row is about a port, each server there keeps its slots. -/
theorem filter_visits {port : UInt16}
    (hport : ∀ rec ∈ rows, ¬(rec.CompleteFor portName ∧ port = rec.storedPort)) :
    (rows.foldl (visitRow portName) held).filter (·.2 = port) = held.filter (·.2 = port) := by
  induction rows generalizing held with
  | nil => rfl
  | cons rec rows ih =>
    rw [List.foldl_cons, ih fun r hr => hport r (List.mem_cons_of_mem _ hr),
      filter_visitRow (hport rec List.mem_cons_self)]

theorem mem_visits_of_other {k : ServerKey}
    (hk : ∀ rec ∈ rows, ¬(rec.CompleteFor portName ∧ k.2 = rec.storedPort)) :
    k ∈ rows.foldl (visitRow portName) held ↔ k ∈ held := by
  have hmem := congrArg (k ∈ ·) (@filter_visits portName held rows k.2 hk)
  simpa only [Multiset.mem_filter, and_true, eq_iff_iff] using hmem

/-- The row that is visited decides about its port for good. -/
theorem mem_visits_iff {before after : List UdpBcastForwarderRow} {rec : UdpBcastForwarderRow}
    (hone : OneRowPerPort (before ++ rec :: after))
    (hports : ∀ r ∈ before ++ rec :: after, r.ForwardPort)
    (hcomplete : rec.CompleteFor portName) (id : IpAddress) :
    (id, rec.storedPort) ∈ (before ++ rec :: after).foldl (visitRow portName) held ↔
      (id, rec.storedPort) ∈ visitRow portName (before.foldl (visitRow portName) held) rec := by
  rw [List.foldl_append, List.foldl_cons]
  apply mem_visits_of_other
  intro r hr hcase
  obtain ⟨hr', hport⟩ := hcase
  have hpair := (List.pairwise_cons.mp (List.pairwise_append.mp hone).2.1).1 r hr
  refine hpair ?_ (hcomplete.1.trans hr'.1.symm) ?_
  · rw [hcomplete.1]
    simp
  · rw [(hports rec (by simp)).1, (hports r (by simp [hr])).1, ← hport]

/-- When all rows visited have fitted, the servers are those of these rows, and on the ports that
no row is about the helpers and the old servers. -/
theorem mem_visits_of_fits (hone : OneRowPerPort rows) (hports : ∀ r ∈ rows, r.ForwardPort)
    (hfits : ∀ before rec after, rows = before ++ rec :: after → rec.CompleteFor portName →
      RowFits (before.foldl (visitRow portName) held) rec) (k : ServerKey) :
    k ∈ rows.foldl (visitRow portName) held ↔
      (k ∈ held ∧ ∀ rec ∈ rows, ¬(rec.CompleteFor portName ∧ k.2 = rec.storedPort)) ∨
        ∃ rec ∈ rows, rec.CompleteFor portName ∧ k.2 = rec.storedPort ∧
          k.1 ∈ validAddresses rec.ipv4UcastServer := by
  by_cases hvisited : ∃ rec ∈ rows, rec.CompleteFor portName ∧ k.2 = rec.storedPort
  · obtain ⟨rec, hrec, hcomplete, hkport⟩ := hvisited
    obtain ⟨before, after, hsplit⟩ := List.append_of_mem hrec
    have hk : k = (k.1, rec.storedPort) := Prod.ext rfl hkport
    have hmem := @mem_visits_iff portName held before after rec (hsplit ▸ hone) (hsplit ▸ hports)
      hcomplete k.1
    rw [← hk, ← hsplit] at hmem
    rw [hmem, or_iff_right fun hcase => hcase.2 rec hrec ⟨hcomplete, hkport⟩]
    constructor
    · intro hin
      rw [hk] at hin
      exact ⟨rec, hrec, hcomplete, hkport, mem_of_mem_visitRow hcomplete hin⟩
    · intro hcase
      obtain ⟨rec', hrec', hcomplete', hkport', hid⟩ := hcase
      -- no two rows are for one port, so the row that has the port is the one
      have hsame : rec' = rec := by
        refine hone.eq_of_port hrec' hrec hcomplete' hcomplete ?_
        rw [(hports rec' hrec').1, (hports rec hrec).1, ← hkport, ← hkport']
      subst hsame
      rw [hk]
      exact (rowFits_iff hcomplete).mp (hfits before rec' after hsplit hcomplete) k.1 hid
  · have hother : ∀ rec ∈ rows, ¬(rec.CompleteFor portName ∧ k.2 = rec.storedPort) :=
      fun rec hrec hcase => hvisited ⟨rec, hrec, hcase⟩
    rw [mem_visits_of_other hother, or_iff_left, and_iff_left hother]
    exact fun ⟨rec, hrec, hcomplete, hkport, _⟩ => hother rec hrec ⟨hcomplete, hkport⟩

end visits

/-! ## The handler is a visit -/

section handler

theorem addressed_of_serversOf {s : State} (hl : Linked s)
    (h : ∀ portName, ∀ k ∈ s.serversOf portName, k.1 ≠ 0) :
    ∀ e ∈ s.intfHashTable, ∀ k ∈ s.keysAt e.2, k.1 ≠ 0 := by
  intro e he k hk
  obtain ⟨n, hp, hname⟩ := (hl.listed e.1 e.2).mp he
  refine h e.1 k ?_
  rw [← hname, serversOf_eq hl hp]
  exact mem_held.mpr hk

theorem ne_zero_of_mem_visitRow {portName : CString} {held : Multiset ServerKey}
    {rec : UdpBcastForwarderRow} (hheld : ∀ k ∈ held, k.1 ≠ 0) :
    ∀ k ∈ visitRow portName held rec, k.1 ≠ 0 := by
  intro k hk
  unfold visitRow at hk
  split at hk
  · rcases Multiset.mem_add.mp hk with hkept | hnew
    · exact hheld k (Multiset.mem_filter.mp hkept).1
    · exact ne_zero_of_mem_validAddresses
        (mem_rowNew.mp (List.mem_of_mem_take (Multiset.mem_coe.mp hnew))).1
  · exact hheld k hk

/-- The servers of the other interfaces of a visit. -/
theorem visitRow_of_frame {s s' : State} {rec : UdpBcastForwarderRow} {portName : CString}
    (hport : rec.srcPort = some portName)
    (hframe : ∀ other, other ≠ portName → s'.interface other = s.interface other)
    (hself : s'.serversOf portName = visitRow portName (s.serversOf portName) rec)
    (name : CString) : s'.serversOf name = visitRow name (s.serversOf name) rec := by
  by_cases hname : name = portName
  · rw [hname]
    exact hself
  · have hother : ¬rec.CompleteFor name := by
      intro hcase
      have hsrc := hcase.1
      rw [hport, Option.some.injEq] at hsrc
      exact hname hsrc.symm
    rw [visitRow, if_neg hother, State.serversOf, hframe name hname, ← State.serversOf]

/-- One call of the handler: a visit, unless it reads a node that it freed. -/
theorem udpBcastForwarderConfigChange_visit (c : Cache) (rec : UdpBcastForwarderRow)
    (hport : rec.ForwardPort)
    (hlen : ∀ portName, rec.CompleteFor portName → rec.ipv4UcastServer.length ≤ 8)
    (hheld : ∀ portName, rec.CompleteFor portName →
      ((c.state.serversOf portName).filter (·.2 = rec.storedPort)).card ≤ 8)
    (hfew : maxUdpBcastServerPerInterface * (c.state.intfHashTable.length + 1) ≤ 65535) :
    udpfwdHandleUdpBcastForwarderConfigChange c.state rec = .error .freedNode ∨
      ∃ c' : Cache, udpfwdHandleUdpBcastForwarderConfigChange c.state rec = .ok c'.state ∧
        c'.state.intfHashTable.length ≤ c.state.intfHashTable.length + 1 ∧
        ∀ portName, c'.state.serversOf portName
          = visitRow portName (c.state.serversOf portName) rec := by
  by_cases hcomplete : ∃ portName, rec.CompleteFor portName
  · obtain ⟨portName, hcomplete⟩ := hcomplete
    obtain ⟨hsrc, hvrf⟩ := hcomplete
    obtain ⟨vrf, hvrf'⟩ := Option.ne_none_iff_exists'.mp hvrf
    have hlen' := hlen portName ⟨hsrc, hvrf⟩
    have hheld' := hheld portName ⟨hsrc, hvrf⟩
    obtain ⟨gone, hchanges, hkept, hcard, _⟩ :=
      udpBcastForwarderConfigChange_port c hsrc hvrf' hport.1
    -- neither array on the stack overruns
    have hgone : gone.card ≤ 8 := by
      rw [hcard]
      exact Nat.le_trans (Multiset.card_le_card
        (Multiset.monotone_filter_right _ fun k hk => hk.1)) hheld'
    have hnew : (rowNew (c.state.serversOf portName) rec.ipv4UcastServer rec.storedPort).length
        ≤ 8 := Nat.le_trans (length_rowNew_le _ _ _) hlen'
    have hnonzero : ∀ (s' : State), (∀ name, s'.serversOf name
        = visitRow name (c.state.serversOf name) rec) →
        ∀ name, ∀ k ∈ s'.serversOf name, k.1 ≠ 0 := by
      intro s' hall name
      rw [hall name]
      exact ne_zero_of_mem_visitRow fun k hk => c.ne_zero_of_mem_serversOf hk
    generalize udpfwdHandleUdpBcastForwarderConfigChange c.state rec = r at hchanges ⊢
    cases hchanges with
    | manyGone hfull => exact absurd hfull (Nat.ne_of_lt (Nat.lt_of_le_of_lt hgone (by decide)))
    | readFreed _ _ _ => exact Or.inl rfl
    | manyNew _ _ hfull =>
      exact absurd (Nat.le_trans hfull hnew) (by decide)
    | @freed s' _ hempty hvalid hinv hnone hframe htable =>
      have hself : s'.serversOf portName
          = visitRow portName (c.state.serversOf portName) rec := by
        have hnil :
            rowNew (c.state.serversOf portName) rec.ipv4UcastServer rec.storedPort = [] := by
          rw [rowNew, hvalid]
          rfl
        rw [visitRow, if_pos ⟨hsrc, hvrf⟩, ← hkept, hempty.2.2, hnil, State.serversOf, hnone]
        rfl
      have hall := visitRow_of_frame hsrc hframe hself
      exact Or.inr ⟨⟨s', hinv, addressed_of_serversOf hinv.linked (hnonzero s' hall)⟩, rfl,
        Nat.le_succ_of_le htable, hall⟩
    | @stored s' _ _ _ _ _ hlinked _ _ hservers hframe htable hcounted =>
      have hself : s'.serversOf portName
          = visitRow portName (c.state.serversOf portName) rec := by
        rw [hservers, hkept, visitRow, if_pos ⟨hsrc, hvrf⟩]
      have hall := visitRow_of_frame hsrc hframe hself
      exact Or.inr ⟨⟨s', ⟨hlinked, hcounted hfew⟩,
        addressed_of_serversOf hlinked (hnonzero s' hall)⟩, rfl, htable, hall⟩
  · -- a row without port or VRF is left out
    have hnone : rec.srcPort = none ∨ rec.destVrf = none := by
      by_contra hboth
      obtain ⟨hsrc, hvrf⟩ := not_or.mp hboth
      obtain ⟨portName, hsrc⟩ := Option.ne_none_iff_exists'.mp hsrc
      exact hcomplete ⟨portName, hsrc, hvrf⟩
    have hrun := (udpBcastForwarderConfigChange_skipped c.state hnone).1
    refine Or.inr ⟨c, hrun, Nat.le_succ _, ?_⟩
    intro portName
    rw [visitRow, if_neg fun hcase => hcomplete ⟨portName, hcase⟩]

/-- All calls of a batch. -/
theorem udpBcastForwarderConfigChange_visits (rows : List UdpBcastForwarderRow) :
    ∀ c : Cache, (∀ rec ∈ rows, rec.ForwardPort) → OneRowPerPort rows →
      (∀ rec ∈ rows, ∀ portName, rec.CompleteFor portName → rec.ipv4UcastServer.length ≤ 8) →
      (∀ rec ∈ rows, ∀ portName, rec.CompleteFor portName →
        ((c.state.serversOf portName).filter (·.2 = rec.storedPort)).card ≤ 8) →
      maxUdpBcastServerPerInterface * (c.state.intfHashTable.length + rows.length) ≤ 65535 →
      rows.foldlM udpfwdHandleUdpBcastForwarderConfigChange c.state = .error .freedNode ∨
        ∃ s', rows.foldlM udpfwdHandleUdpBcastForwarderConfigChange c.state = .ok s' ∧
          ∀ portName, s'.serversOf portName
            = rows.foldl (visitRow portName) (c.state.serversOf portName) := by
  induction rows with
  | nil =>
    intro c _ _ _ _ _
    exact Or.inr ⟨c.state, rfl, fun _ => rfl⟩
  | cons rec rows ih =>
    intro c hports hone hlen hheld hfew
    rw [List.length_cons] at hfew
    have hfirst : rec ∈ rec :: rows := List.mem_cons_self
    obtain ⟨hdistinct, hone'⟩ := List.pairwise_cons.mp hone
    -- a visit reads a freed node, or leaves a cache for the rows to come
    rcases udpBcastForwarderConfigChange_visit c rec (hports rec hfirst) (hlen rec hfirst)
      (hheld rec hfirst) (Nat.le_trans (Nat.mul_le_mul_left _ (by omega)) hfew) with hfreed | hok
    · left
      rw [List.foldlM_cons, hfreed]
      rfl
    · obtain ⟨c', hrun, htable, hvisit⟩ := hok
      have hrest := ih c' (fun r hr => hports r (List.mem_cons_of_mem _ hr)) hone'
        (fun r hr => hlen r (List.mem_cons_of_mem _ hr)) ?_
        (Nat.le_trans (Nat.mul_le_mul_left _ (by omega)) hfew)
      · rw [List.foldlM_cons, hrun]
        simp only [List.foldl_cons, ← hvisit]
        exact hrest
      · -- the rows to come have other ports
        intro r hr portName hcomplete
        rw [hvisit, filter_visitRow]
        · exact hheld r (List.mem_cons_of_mem _ hr) portName hcomplete
        · intro hcase
          obtain ⟨hcomplete', hport⟩ := hcase
          refine hdistinct r hr ?_ (hcomplete'.1.trans hcomplete.1.symm) ?_
          · rw [hcomplete'.1]
            simp
          · rw [(hports rec hfirst).1, (hports r (List.mem_cons_of_mem _ hr)).1, hport]

end handler

/-! ## The update function -/

section update

/-- The rows of a table, and those that a call visits. -/
def IdlTable.snapshot (table : IdlTable UdpBcastForwarderRow) : List UdpBcastForwarderRow :=
  table.rows.map (·.row)

def IdlTable.visited (table : IdlTable UdpBcastForwarderRow) : List UdpBcastForwarderRow :=
  (table.rows.filter fun rec => rec.inserted || rec.modified).map (·.row)

/-- Whether the call looks for servers without a row. -/
def IdlTable.Deletes (table : IdlTable UdpBcastForwarderRow) : Prop :=
  table.rows = [] ∨ table.anyDeleted = true

instance (table : IdlTable UdpBcastForwarderRow) : Decidable table.Deletes :=
  inferInstanceAs (Decidable (_ ∨ _))

/-- The forward-protocol servers of a snapshot. -/
def SnapshotHas (rows : List UdpBcastForwarderRow) (portName : CString) (k : ServerKey) : Prop :=
  ∃ rec ∈ rows, rec.CompleteFor portName ∧ rec.udpDport = k.2.toNat ∧
    k.1 ∈ validAddresses rec.ipv4UcastServer

/-- A call on the table of a snapshot within the limits, with a cache that agreed with an
earlier snapshot within the limits. -/
structure BatchInput (s : State) (old : List UdpBcastForwarderRow)
    (table : IdlTable UdpBcastForwarderRow) : Prop where
  /-- Each row of the snapshots has a port of its own on its interface. -/
  oldPorts : OneRowPerPort old
  newPorts : OneRowPerPort table.snapshot
  forward : ∀ rec ∈ table.snapshot, rec.ForwardPort
  /-- At most eight servers over all rows of an interface. -/
  newLimit : ∀ portName, ((table.snapshot.filter (·.srcPort = some portName)).map
    (·.ipv4UcastServer.length)).sum ≤ 8
  /-- The cache is within the limits, too. -/
  cachedLimit : ∀ portName, ((s.serversOf portName).filter (·.2 ≠ dhcpsPort)).card ≤ 8
  helperLimit : ∀ portName, ((s.serversOf portName).filter (·.2 = dhcpsPort)).card ≤ 8
  /-- The cache agreed with the earlier snapshot. -/
  agreed : ∀ portName k, k.2 ≠ dhcpsPort →
    (k ∈ s.serversOf portName ↔ SnapshotHas old portName k)
  /-- A row that is neither inserted nor modified is a row of the earlier snapshot. -/
  unchanged : ∀ rec ∈ table.rows, (rec.inserted || rec.modified) = false → rec.row ∈ old
  anyInserted : ∀ rec ∈ table.rows, rec.inserted = true → table.anyInserted = true
  anyModified : ∀ rec ∈ table.rows, rec.modified = true → table.anyModified = true
  /-- So many interfaces that the reference counts do not wrap. -/
  few : maxUdpBcastServerPerInterface * (s.intfHashTable.length + table.rows.length) ≤ 65535

/-- The forward-protocol servers cached for each interface are those of the snapshot. -/
def CachesSnapshot (table : IdlTable UdpBcastForwarderRow) (r : Except Fault State) : Prop :=
  ∃ s', r = .ok s' ∧ ∀ portName k, k.2 ≠ dhcpsPort →
    (k ∈ s'.serversOf portName ↔ SnapshotHas table.snapshot portName k)

/-- The servers of an interface when the first row is visited. -/
def serversBefore (s : State) (table : IdlTable UdpBcastForwarderRow) (portName : CString) :
    Multiset ServerKey :=
  if table.Deletes then
    (s.serversOf portName).filter fun k => ¬UdpBcastForwarderOrphan table.snapshot portName k
  else s.serversOf portName

/-- What the deletion of rows leaves behind is in the snapshot, or on a port that a visited
row is about. -/
def StaleServersDeleted (s : State) (table : IdlTable UdpBcastForwarderRow) : Prop :=
  ∀ portName, ∀ k ∈ serversBefore s table portName, k.2 ≠ dhcpsPort →
    (∃ rec ∈ table.visited, rec.CompleteFor portName ∧ k.2 = rec.storedPort) ∨
      SnapshotHas table.snapshot portName k

/-- Each visited row finds enough free slots when its turn comes. -/
def RowsFitInOrder (s : State) (table : IdlTable UdpBcastForwarderRow) : Prop :=
  ∀ portName before rec after, table.visited = before ++ rec :: after →
    rec.CompleteFor portName →
    RowFits (before.foldl (visitRow portName) (serversBefore s table portName)) rec

variable {s : State} {old : List UdpBcastForwarderRow} {table : IdlTable UdpBcastForwarderRow}

theorem visited_sublist : table.visited.Sublist table.snapshot :=
  List.filter_sublist.map _

theorem foldlM_visited (rows : List (IdlRow UdpBcastForwarderRow)) (s : State) :
    rows.foldlM (fun s rec => if rec.inserted || rec.modified
      then udpfwdHandleUdpBcastForwarderConfigChange s rec.row else pure s) s
      = ((rows.filter fun rec => rec.inserted || rec.modified).map (·.row)).foldlM
        udpfwdHandleUdpBcastForwarderConfigChange s := by
  induction rows generalizing s with
  | nil => rfl
  | cons rec rows ih =>
    rw [List.foldlM_cons, List.filter_cons]
    by_cases hflag : (rec.inserted || rec.modified) = true
    · rw [if_pos hflag, if_pos hflag, List.map_cons, List.foldlM_cons]
      congr 1
      funext s₁
      exact ih s₁
    · rw [if_neg hflag, if_neg hflag]
      exact ih s

/-- The call is a row deletion, when there is one, and then the visits. -/
theorem configUpdate_eq (h : BatchInput s old table) :
    udpBcastForwarderServerConfigUpdate s table =
      ((if table.Deletes then udpfwdHandleUdpBcastForwarderRowDelete s table.snapshot else .ok s)
        >>= table.visited.foldlM udpfwdHandleUdpBcastForwarderConfigChange) := by
  unfold udpBcastForwarderServerConfigUpdate configUpdate
  simp only [foldlM_visited]
  by_cases hempty : table.rows = []
  · have hvisited : table.visited = [] := by
      rw [IdlTable.visited, hempty]
      rfl
    have hdeletes : table.Deletes := Or.inl hempty
    rw [if_pos (by rw [hempty]; rfl), if_pos hdeletes, hvisited, IdlTable.snapshot]
    exact (bind_pure _).symm
  · rw [if_neg (by simpa using hempty)]
    by_cases hdeleted : table.anyDeleted = true
    · have hdeletes : table.Deletes := Or.inr hdeleted
      rw [if_pos hdeletes, if_neg (by simp [hdeleted]), if_pos hdeleted]
      rfl
    · have hdeletes : ¬table.Deletes := fun hcase => Or.elim hcase hempty hdeleted
      rw [if_neg hdeletes, if_neg hdeleted]
      split
      · -- nothing has changed, and no row is flagged
        rename_i hnone
        simp only [Bool.and_eq_true, Bool.not_eq_true'] at hnone
        have hvisited : table.visited = [] := by
          rw [IdlTable.visited, List.map_eq_nil_iff, List.filter_eq_nil_iff]
          intro rec hrec hflag
          rcases Bool.or_eq_true _ _ ▸ hflag with hins | hmod
          · rw [h.anyInserted rec hrec hins] at hnone
            exact absurd hnone.1.1 (by simp)
          · rw [h.anyModified rec hrec hmod] at hnone
            exact absurd hnone.2 (by simp)
        rw [hvisited]
        rfl
      · rfl

theorem snapshotHas_orphan {portName : CString} {k : ServerKey}
    {rows : List UdpBcastForwarderRow} (h : SnapshotHas rows portName k) :
    ¬UdpBcastForwarderOrphan rows portName k := by
  obtain ⟨rec, hrec, hcomplete, hdport, hid⟩ := h
  intro hcase
  refine hcase.2 ⟨rec, hrec, ?_, hdport, hid⟩
  intro name hname
  rw [hcomplete.1, Option.some.injEq] at hname
  exact hname ▸ List.prefix_refl portName

/-- The row deletion of a batch, with a cache in order and so few servers that no array on
the stack is full. -/
theorem batch_delete (c : Cache) (h : BatchInput c.state old table) :
    ∃ c₀ : Cache,
      (if table.Deletes then udpfwdHandleUdpBcastForwarderRowDelete c.state table.snapshot
        else .ok c.state) = .ok c₀.state ∧
      c₀.state.intfHashTable.length ≤ c.state.intfHashTable.length ∧
      ∀ portName, c₀.state.serversOf portName = serversBefore c.state table portName := by
  by_cases hdeletes : table.Deletes
  · have hl := c.inv.linked
    obtain ⟨s', hrun, hinv, hw, hintf⟩ := udpBcastForwarderRowDelete_walk table.snapshot c (by
      intro e he hfull
      obtain ⟨n, hp, hname⟩ := (hl.listed e.1 e.2).mp he
      have hlimit := h.cachedLimit e.1
      rw [← hname, card_filter_serversOf hl hp] at hlimit
      have hle : ((c.state.view e.2).2.filter
          (UdpBcastForwarderOrphan table.snapshot e.1)).length ≤ 8 := by
        refine Nat.le_trans ?_ hlimit
        rw [← List.countP_eq_length_filter, ← List.countP_eq_length_filter]
        apply List.countP_mono_left
        intro k _ hk
        rw [decide_eq_true_iff] at hk ⊢
        exact hk.1
      unfold UdpBcastForwarderOverrun at hfull
      rw [hfull] at hle
      exact absurd hle (by decide))
    have haddr : ∀ portName, ∀ k ∈ s'.serversOf portName, k.1 ≠ 0 := by
      intro portName k hk
      rw [(hintf portName).1, Multiset.mem_filter] at hk
      exact c.ne_zero_of_mem_serversOf hk.1
    refine ⟨⟨s', hinv, addressed_of_serversOf hw.linked haddr⟩, ?_, ?_, ?_⟩
    · rw [if_pos hdeletes]
      exact hrun
    · -- the table lists the live nodes, and none is new
      have hsub : s'.intfHashTable ⊆ c.state.intfHashTable := by
        intro e he
        obtain ⟨m, hm, hname⟩ := (hw.linked.listed e.1 e.2).mp he
        obtain ⟨n, hn, hname'⟩ := hw.node_of_node hl hm
        exact (hl.listed e.1 e.2).mpr ⟨n, hn, hname'.trans hname⟩
      exact (List.subperm_of_subset hw.linked.table_nodup hsub).length_le
    · intro portName
      rw [serversBefore, if_pos hdeletes]
      exact (hintf portName).1
  · refine ⟨c, if_neg hdeletes, Nat.le_refl _, ?_⟩
    intro portName
    rw [serversBefore, if_neg hdeletes]

/-- The rows that are visited are rows of the snapshot. -/
theorem BatchInput.visited_rows (h : BatchInput s old table) :
    OneRowPerPort table.visited ∧ ∀ rec ∈ table.visited, rec ∈ table.snapshot ∧ rec.ForwardPort :=
  ⟨h.newPorts.sublist visited_sublist, fun rec hrec =>
    ⟨visited_sublist.subset hrec, h.forward rec (visited_sublist.subset hrec)⟩⟩

/-- A batch that reads no freed node returns with the servers that the visits leave. -/
theorem batch_run (c : Cache) (h : BatchInput c.state old table)
    (hlife : udpBcastForwarderServerConfigUpdate c.state table ≠ .error .freedNode) :
    ∃ s', udpBcastForwarderServerConfigUpdate c.state table = .ok s' ∧
      ∀ portName, s'.serversOf portName
        = table.visited.foldl (visitRow portName) (serversBefore c.state table portName) := by
  obtain ⟨c₀, hdelete, htable, hbefore⟩ := batch_delete c h
  rw [configUpdate_eq h, hdelete, ok_bind] at hlife ⊢
  obtain ⟨hone, hrows⟩ := h.visited_rows
  have hlen : ∀ rec ∈ table.visited, ∀ portName, rec.CompleteFor portName →
      rec.ipv4UcastServer.length ≤ 8 := by
    intro rec hrec portName hcomplete
    refine Nat.le_trans (List.le_sum_of_mem ?_) (h.newLimit portName)
    refine List.mem_map.mpr ⟨rec, List.mem_filter.mpr ⟨(hrows rec hrec).1, ?_⟩, rfl⟩
    rw [hcomplete.1]
    simp
  -- the deletion has only taken servers, so at most 8 are left on a port
  have hheld : ∀ rec ∈ table.visited, ∀ portName, rec.CompleteFor portName →
      ((c₀.state.serversOf portName).filter (·.2 = rec.storedPort)).card ≤ 8 := by
    intro rec hrec portName _
    refine Nat.le_trans (Multiset.card_le_card ?_) (h.cachedLimit portName)
    have hle : c₀.state.serversOf portName ≤ c.state.serversOf portName := by
      rw [hbefore, serversBefore]
      split
      · exact Multiset.filter_le _ _
      · exact le_refl _
    refine le_trans (Multiset.filter_le_filter _ hle)
      (Multiset.monotone_filter_right _ fun k hk => ?_)
    rw [hk]
    exact (hrows rec hrec).2.2
  have hfew : maxUdpBcastServerPerInterface *
      (c₀.state.intfHashTable.length + table.visited.length) ≤ 65535 := by
    refine Nat.le_trans (Nat.mul_le_mul_left _ (Nat.add_le_add htable ?_)) h.few
    refine Nat.le_trans visited_sublist.length_le ?_
    rw [IdlTable.snapshot, List.length_map]
  rcases udpBcastForwarderConfigChange_visits table.visited c₀ (fun rec hrec => (hrows rec hrec).2)
    hone hlen hheld hfew with hfreed | hok
  · exact absurd hfreed hlife
  · simp only [hbefore] at hok
    exact hok

/-- A server that the snapshot has and no visited row is about is in the cache when the visits
begin. -/
theorem BatchInput.mem_serversBefore (h : BatchInput s old table) {portName : CString}
    {k : ServerKey} (hport : k.2 ≠ dhcpsPort) (hhas : SnapshotHas table.snapshot portName k)
    (hvisited : ¬∃ rec ∈ table.visited, rec.CompleteFor portName ∧ k.2 = rec.storedPort) :
    k ∈ serversBefore s table portName := by
  have hcached : k ∈ s.serversOf portName := by
    rw [h.agreed portName k hport]
    obtain ⟨rec, hrec, hcomplete, hdport, hid⟩ := hhas
    obtain ⟨r, hr, rfl⟩ := List.mem_map.mp hrec
    -- its row is not flagged, so it was a row of the last snapshot
    refine ⟨r.row, h.unchanged r hr ?_, hcomplete, hdport, hid⟩
    by_contra hflag
    have hflag' := Bool.eq_true_of_not_eq_false hflag
    refine hvisited ⟨r.row, List.mem_map.mpr ⟨r, List.mem_filter.mpr ⟨hr, hflag'⟩, rfl⟩,
      hcomplete, ?_⟩
    rw [(h.forward r.row hrec).1, Nat.cast_inj, UInt16.toNat_inj] at hdport
    exact hdport.symm
  rw [serversBefore]
  split
  · exact Multiset.mem_filter.mpr ⟨hcached, snapshotHas_orphan hhas⟩
  · exact hcached

/-- A batch leaves exactly the servers of the snapshot if and only if no stale server is
kept for want of a deleted or visited row, and every visited row fits when its turn
comes. -/
theorem batch_cachesSnapshot_iff (c : Cache) (h : BatchInput c.state old table)
    (hlife : udpBcastForwarderServerConfigUpdate c.state table ≠ .error .freedNode) :
    CachesSnapshot table (udpBcastForwarderServerConfigUpdate c.state table) ↔
      StaleServersDeleted c.state table ∧ RowsFitInOrder c.state table := by
  obtain ⟨s', hrun, hservers⟩ := batch_run c h hlife
  obtain ⟨hone, hrows⟩ := h.visited_rows
  have hvisitedRow : ∀ rec ∈ table.visited, rec ∈ table.snapshot :=
    fun rec hrec => (hrows rec hrec).1
  have hports : ∀ rec ∈ table.visited, rec.ForwardPort := fun rec hrec => (hrows rec hrec).2
  -- the final servers on the port of a visited row
  have hvisit : ∀ portName before rec after, table.visited = before ++ rec :: after →
      rec.CompleteFor portName → ∀ id,
      ((id, rec.storedPort) ∈ s'.serversOf portName ↔ (id, rec.storedPort) ∈ visitRow portName
        (before.foldl (visitRow portName) (serversBefore c.state table portName)) rec) := by
    intro portName before rec after hsplit hcomplete id
    rw [hservers, hsplit]
    exact mem_visits_iff (hsplit ▸ hone) (hsplit ▸ hports) hcomplete id
  rw [hrun]
  constructor
  · intro hcaches
    obtain ⟨s'', hs'', hexact⟩ := hcaches
    rw [Except.ok.injEq] at hs''
    subst hs''
    constructor
    · intro portName k hk hport
      by_cases hvisited : ∃ rec ∈ table.visited, rec.CompleteFor portName ∧ k.2 = rec.storedPort
      · exact Or.inl hvisited
      · refine Or.inr ((hexact portName k hport).mp ?_)
        rw [hservers, mem_visits_of_other fun rec hrec hcase => hvisited ⟨rec, hrec, hcase⟩]
        exact hk
    · intro portName before rec after hsplit hcomplete
      rw [rowFits_iff hcomplete]
      intro id hid
      have hrec : rec ∈ table.visited := by
        rw [hsplit]
        simp
      rw [← hvisit portName before rec after hsplit hcomplete id]
      exact (hexact portName (id, rec.storedPort) (hports rec hrec).2).mpr
        ⟨rec, hvisitedRow rec hrec, hcomplete, (hports rec hrec).1, hid⟩
  · intro hcond
    obtain ⟨hstale, hfits⟩ := hcond
    refine ⟨s', rfl, ?_⟩
    intro portName k hport
    rw [hservers, mem_visits_of_fits hone hports (hfits portName)]
    constructor
    · intro hin
      rcases hin with hleft | hrow
      · obtain ⟨hk, hother⟩ := hleft
        refine (hstale portName k hk hport).resolve_left fun hcase => ?_
        obtain ⟨rec, hrec, hcase⟩ := hcase
        exact hother rec hrec hcase
      · obtain ⟨rec, hrec, hcomplete, hkport, hid⟩ := hrow
        refine ⟨rec, hvisitedRow rec hrec, hcomplete, ?_, hid⟩
        rw [hkport]
        exact (hports rec hrec).1
    · intro hhas
      by_cases hvisited : ∃ rec ∈ table.visited, rec.CompleteFor portName ∧ k.2 = rec.storedPort
      · -- the row of the snapshot is the visited one
        obtain ⟨rec, hrec, hcomplete, hkport⟩ := hvisited
        obtain ⟨rec', hrec', hcomplete', hdport', hid⟩ := hhas
        have hsame : rec' = rec := by
          refine h.newPorts.eq_of_port hrec' (hvisitedRow rec hrec) hcomplete' hcomplete ?_
          rw [hdport', hkport]
          exact (hports rec hrec).1.symm
        exact Or.inr ⟨rec, hrec, hcomplete, hkport, hsame ▸ hid⟩
      · exact Or.inl ⟨h.mem_serversBefore hport hhas hvisited,
          fun rec hrec hcase => hvisited ⟨rec, hrec, hcase⟩⟩

/-! ### An interface without a free slot -/

/-- The addresses 10.0.0.1 to 10.0.0.8. -/
def crowdedServers (udpPort : UInt16) : List ServerKey :=
  [1, 2, 3, 4, 5, 6, 7, 8].map fun octet => (0x0000000a + 0x01000000 * octet, udpPort)

/-- Eight helpers, and eight servers on port 100. -/
def crowdedCache : Cache :=
  Cache.ofCalls (.create ['1'] :: (crowdedServers 67 ++ crowdedServers 100).map fun k =>
    .store 0 k.1 k.2) _ rfl (by decide)

def crowdedRow (udpDport : ℤ) (octets : List Char) : UdpBcastForwarderRow :=
  ⟨some ['1'], some ['v'], udpDport, octets.map fun c => "10.0.0.".toList ++ [c]⟩

/-- The server of a new row on port 200 is visited before port 100 loses seven servers. -/
def crowdedTable : IdlTable UdpBcastForwarderRow :=
  ⟨[⟨crowdedRow 200 ['1'], true, false⟩, ⟨crowdedRow 100 ['1'], false, true⟩], true, false, true⟩

theorem mem_crowdedServers {udpPort : UInt16} {k : ServerKey} :
    k ∈ crowdedServers udpPort ↔ k.2 = udpPort ∧ k.1 ∈ (crowdedServers 100).map Prod.fst := by
  obtain ⟨id, port⟩ := k
  simp only [crowdedServers, List.map_map, List.mem_map, Function.comp_apply, Prod.mk.injEq]
  constructor
  · intro hcase
    obtain ⟨octet, hoctet, hid, hport⟩ := hcase
    exact ⟨hport.symm, octet, hoctet, hid⟩
  · intro hcase
    obtain ⟨hport, octet, hoctet, hid⟩ := hcase
    exact ⟨octet, hoctet, hid, hport.symm⟩

theorem crowdedCache_serversOf (portName : CString) :
    crowdedCache.state.serversOf portName
      = if portName = ['1'] then ↑(crowdedServers 67 ++ crowdedServers 100) else 0 := by
  by_cases hname : portName = ['1']
  · subst hname
    rfl
  · rw [if_neg hname, State.serversOf, interface_eq_none crowdedCache.inv.linked]
    intro p n hp hport
    have hmem := crowdedCache.inv.linked.mem_table hp
    rw [hport] at hmem
    have htable : crowdedCache.state.intfHashTable = [(['1'], 0)] := rfl
    rw [htable, List.mem_singleton] at hmem
    exact hname (congrArg Prod.fst hmem)

theorem crowded_batchInput : BatchInput crowdedCache.state
    [crowdedRow 100 ['1', '2', '3', '4', '5', '6', '7', '8']] crowdedTable := by
  have hvalid :
      validAddresses (crowdedRow 100 ['1', '2', '3', '4', '5', '6', '7', '8']).ipv4UcastServer
        = (crowdedServers 100).map Prod.fst := by decide
  refine ⟨by simp [OneRowPerPort], ?_, by decide, ?_, ?_, ?_, ?_, by decide, by decide,
    by decide, by decide⟩
  · simp [OneRowPerPort, IdlTable.snapshot, crowdedTable, crowdedRow]
  · intro portName
    by_cases hname : portName = ['1']
    · subst hname
      decide
    · have hnil : crowdedTable.snapshot.filter (·.srcPort = some portName) = [] := by
        rw [List.filter_eq_nil_iff]
        intro rec hrec
        simp only [crowdedTable, IdlTable.snapshot, crowdedRow, List.map_cons, List.map_nil,
          List.mem_cons, List.not_mem_nil, or_false] at hrec
        rcases hrec with rfl | rfl <;> simpa using fun heq => hname heq.symm
      rw [hnil]
      decide
  · intro portName
    rw [crowdedCache_serversOf]
    split <;> decide
  · intro portName
    rw [crowdedCache_serversOf]
    split <;> decide
  · intro portName k hport
    -- the row of port 100 has the eight servers that the cache has on it
    have hhas : SnapshotHas [crowdedRow 100 ['1', '2', '3', '4', '5', '6', '7', '8']] portName k ↔
        portName = ['1'] ∧ k ∈ crowdedServers 100 := by
      rw [mem_crowdedServers, ← hvalid]
      unfold SnapshotHas
      constructor
      · intro hcase
        obtain ⟨rec, hrec, hcomplete, hdport, hid⟩ := hcase
        rw [List.mem_singleton] at hrec
        subst hrec
        have hport' : ((100 : UInt16).toNat : ℤ) = k.2.toNat := hdport
        rw [Nat.cast_inj, UInt16.toNat_inj] at hport'
        exact ⟨(Option.some.inj hcomplete.1).symm, hport'.symm, hid⟩
      · intro hcase
        obtain ⟨hname, hkport, hid⟩ := hcase
        refine ⟨_, List.mem_singleton_self _, ⟨congrArg some hname.symm, by decide⟩, ?_, hid⟩
        rw [hkport]
        rfl
    rw [hhas, crowdedCache_serversOf]
    by_cases hname : portName = ['1']
    · rw [if_pos hname, Multiset.mem_coe, List.mem_append]
      constructor
      · intro hcase
        rcases hcase with hhelper | hforward
        · exact absurd (mem_crowdedServers.mp hhelper).1 hport
        · exact ⟨hname, hforward⟩
      · exact fun hcase => Or.inr hcase.2
    · rw [if_neg hname]
      exact iff_of_false (Multiset.notMem_zero k) fun hcase => hname hcase.1

/-- With every slot taken the call on the crowded table stores nothing on port 200, which
is the one row that does not fit. -/
theorem batch_cachesSnapshot_iff_crowded :
    CachesSnapshot crowdedTable
        (udpBcastForwarderServerConfigUpdate crowdedCache.state crowdedTable) ↔
      StaleServersDeleted crowdedCache.state crowdedTable ∧
        RowsFitInOrder crowdedCache.state crowdedTable :=
  batch_cachesSnapshot_iff crowdedCache crowded_batchInput (by
    intro hrun
    exact absurd hrun (by
      rw [show udpBcastForwarderServerConfigUpdate crowdedCache.state crowdedTable = .ok _ from rfl]
      simp))

/-- The new server on port 200 is lost, though the snapshot has two servers only. -/
theorem batch_loses_server : ∃ (c : Cache) (old : List UdpBcastForwarderRow)
    (table : IdlTable UdpBcastForwarderRow), BatchInput c.state old table ∧
      udpBcastForwarderServerConfigUpdate c.state table ≠ .error .freedNode ∧
      ¬CachesSnapshot table (udpBcastForwarderServerConfigUpdate c.state table) := by
  have hrun : ∃ s', udpBcastForwarderServerConfigUpdate crowdedCache.state crowdedTable = .ok s' ∧
      (0x0100000a, 200) ∉ s'.serversOf ['1'] := ⟨_, rfl, by decide⟩
  obtain ⟨s', hrun, hlost⟩ := hrun
  refine ⟨crowdedCache, _, crowdedTable, crowded_batchInput, ?_, ?_⟩
  · rw [hrun]
    simp
  · intro hcaches
    obtain ⟨s'', hs'', hexact⟩ := hcaches
    rw [hrun, Except.ok.injEq] at hs''
    subst hs''
    refine hlost ((hexact ['1'] (0x0100000a, 200) (by decide)).mpr ?_)
    exact ⟨crowdedRow 200 ['1'], List.mem_cons_self, by decide, by decide, by decide⟩

end update

end Udpfwd
end IpApps
