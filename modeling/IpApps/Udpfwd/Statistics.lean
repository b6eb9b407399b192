import IpApps.Udpfwd.Interfaces
import IpApps.Udpfwd.RelayLoop

/-!
# Published statistics

`refresh_dhcp_relay_stats` compares the counters of every port that has a `DHCP_Relay` row
with its statistics column and writes the column again where a counter differs. The values
it writes are collected in one array for all rows, in which only the counters that differ
are set.
-/

namespace IpApps
namespace Udpfwd

open ExceptLoops

/-! ## The refresh -/

/-- `RELAY_STATISTICS`, the keys of the statistics column. -/
inductive RelayStatistics
  | validV4clientRequests
  | droppedV4clientRequests
  | validV4serverResponses
  | droppedV4serverResponses
  | validV4clientRequestsWithOption82
  | droppedV4clientRequestsWithOption82
  | validV4serverResponsesWithOption82
  | droppedV4serverResponsesWithOption82
  deriving DecidableEq, Repr

namespace RelayStatistics

/-- The keys in the order in which they are compared. -/
def keys : List RelayStatistics :=
  [validV4clientRequests, droppedV4clientRequests, validV4serverResponses,
    droppedV4serverResponses, validV4clientRequestsWithOption82,
    droppedV4clientRequestsWithOption82, validV4serverResponsesWithOption82,
    droppedV4serverResponsesWithOption82]

theorem mem_keys (t : RelayStatistics) : t ∈ keys := by
  cases t <;> decide

end RelayStatistics

/-- The counter that is published under a key. -/
def DhcpRelayPktCounter.get (c : DhcpRelayPktCounter) : RelayStatistics → UInt32
  | .validV4clientRequests => c.clientValids
  | .droppedV4clientRequests => c.clientDrops
  | .validV4serverResponses => c.servValids
  | .droppedV4serverResponses => c.servDrops
  | .validV4clientRequestsWithOption82 => c.clientValidsWithOption82
  | .droppedV4clientRequestsWithOption82 => c.clientDropsWithOption82
  | .validV4serverResponsesWithOption82 => c.servValidsWithOption82
  | .droppedV4serverResponsesWithOption82 => c.servDropsWithOption82

/-- The `dhcp_relay_statistics` column of a port. -/
abbrev StatisticsMap := RelayStatistics → Option ℤ

/-- The value of a key, 0 if the key is missing. -/
def StatisticsMap.count (datum : StatisticsMap) (key : RelayStatistics) : ℤ :=
  (datum key).getD 0

/-- The walk over the rows: the array `int_values`, the columns of the ports by their names,
and the columns that were set. A column that was set is what a later row of the port
reads. -/
structure StatisticsRefresh where
  intValues : RelayStatistics → ℤ := fun _ => 0
  published : CString → StatisticsMap
  writes : List (CString × StatisticsMap) := []

/-- The comparison of one counter with the column: the array and `stats_change`. -/
def refreshStatistic (counters : DhcpRelayPktCounter) (datum : StatisticsMap)
    (acc : (RelayStatistics → ℤ) × Bool) (key : RelayStatistics) :
    (RelayStatistics → ℤ) × Bool :=
  let count := datum.count key
  if (counters.get key).toNat ≠ count then
    (Function.update acc.1 key (counters.get key).toNat, true)
  else acc

/-- `refresh_dhcp_relay_stats`, for one row. -/
def refreshRow (s : State) (r : StatisticsRefresh) (rec : DhcpRelayRow) :
    Except Fault StatisticsRefresh :=
  match rec.port with
  | none => .ok r
  | some portName =>
    match s.shashFind portName with
    | none => .ok r
    | some p => do
      let intfNode ← s.node p
      let (intValues, statsChange) := RelayStatistics.keys.foldl
        (refreshStatistic intfNode.dhcpRelayPktCounters (r.published portName))
        (r.intValues, false)
      if statsChange then
        let datum : StatisticsMap := fun key => some (intValues key)
        return {
          intValues
          published := Function.update r.published portName datum
          writes := r.writes ++ [(portName, datum)] }
      else return { r with intValues }

/-- `refresh_dhcp_relay_stats`. -/
def refreshDhcpRelayStats (s : State) (rows : List DhcpRelayRow)
    (published : CString → StatisticsMap) : Except Fault StatisticsRefresh :=
  rows.foldlM (refreshRow s) { published }

/-! ## Visits -/

/-- A port with a row and an interface node, and the counters of the node. -/
abbrev StatisticsVisit := CString × DhcpRelayPktCounter

/-- The visit of a row, if it has one. -/
def statisticsVisit (s : State) (rec : DhcpRelayRow) : Option StatisticsVisit :=
  match rec.port with
  | none => none
  | some portName =>
    (s.interface portName).map fun intf => (portName, intf.1.dhcpRelayPktCounters)

namespace StatisticsRefresh

variable (r : StatisticsRefresh)

/-- A counter of the visit differs from the column. -/
def Differs (v : StatisticsVisit) (key : RelayStatistics) : Prop :=
  ((v.2.get key).toNat : ℤ) ≠ (r.published v.1).count key

instance (v : StatisticsVisit) (key : RelayStatistics) : Decidable (r.Differs v key) :=
  inferInstanceAs (Decidable (_ ≠ _))

/-- The column is right: no counter of the visit differs. -/
def Right (v : StatisticsVisit) : Prop := ∀ key, ¬r.Differs v key

instance (v : StatisticsVisit) : Decidable (r.Right v) :=
  decidable_of_iff (∀ key ∈ RelayStatistics.keys, ¬r.Differs v key)
    ⟨fun h key => h key (RelayStatistics.mem_keys key), fun h key _ => h key⟩

/-- The array after a visit. -/
def visitValues (v : StatisticsVisit) (key : RelayStatistics) : ℤ :=
  if r.Differs v key then (v.2.get key).toNat else r.intValues key

/-- A visit. -/
def visit (v : StatisticsVisit) : StatisticsRefresh :=
  if r.Right v then { r with intValues := r.visitValues v }
  else
    { intValues := r.visitValues v
      published := Function.update r.published v.1 fun key => some (r.visitValues v key)
      writes := r.writes ++ [(v.1, fun key => some (r.visitValues v key))] }

end StatisticsRefresh

section visits

variable {s : State} {r : StatisticsRefresh}

/-- The comparisons set the slots of the counters that differ, and note whether there are
any. -/
theorem foldl_refreshStatistic (counters : DhcpRelayPktCounter) (datum : StatisticsMap)
    (keys : List RelayStatistics) (values : RelayStatistics → ℤ) (change : Bool) :
    keys.foldl (refreshStatistic counters datum) (values, change) =
      (fun key => if key ∈ keys ∧ ((counters.get key).toNat : ℤ) ≠ datum.count key
          then ((counters.get key).toNat : ℤ) else values key,
        change || keys.any fun key => ((counters.get key).toNat : ℤ) ≠ datum.count key) := by
  -- the counters are compared one after the other, so the change flag is an `any`
  induction keys generalizing values change with
  | nil => simp
  | cons key keys ih =>
    rw [List.foldl_cons]
    by_cases hdiffers : ((counters.get key).toNat : ℤ) ≠ datum.count key
    · have hstep : refreshStatistic counters datum (values, change) key =
          (Function.update values key (counters.get key).toNat, true) := if_pos hdiffers
      rw [hstep, ih, List.any_cons, decide_eq_true hdiffers]
      refine Prod.ext (funext fun key' => ?_) (by simp)
      -- a later key may be the same one: it is written again with the same value
      by_cases hkey : key' = key
      · subst hkey
        simp [hdiffers]
      · simp [hkey]
    · have hstep : refreshStatistic counters datum (values, change) key = (values, change) :=
        if_neg hdiffers
      rw [hstep, ih, List.any_cons, decide_eq_false hdiffers, Bool.false_or]
      refine Prod.ext (funext fun key' => ?_) rfl
      by_cases hkey : key' = key
      · subst hkey
        simp [hdiffers]
      · simp [hkey]

/-- The comparisons note a difference if and only if the column is not right. -/
theorem any_differs (v : StatisticsVisit) :
    (RelayStatistics.keys.any fun key =>
      ((v.2.get key).toNat : ℤ) ≠ (r.published v.1).count key) = decide (¬r.Right v) := by
  rw [Bool.eq_iff_iff, List.any_eq_true, decide_eq_true_iff]
  unfold StatisticsRefresh.Right StatisticsRefresh.Differs
  constructor
  · intro hkey hright
    obtain ⟨key, -, hdiffers⟩ := hkey
    exact hright key (of_decide_eq_true hdiffers)
  · intro hnot
    obtain ⟨key, hdiffers⟩ := not_forall.mp hnot
    exact ⟨key, RelayStatistics.mem_keys key, decide_eq_true (not_not.mp hdiffers)⟩

/-- A row is visited if it has a port with an interface node. -/
theorem refreshRow_eq (hl : Linked s) (rec : DhcpRelayRow) :
    refreshRow s r rec = .ok ((statisticsVisit s rec).elim r r.visit) := by
  unfold refreshRow statisticsVisit
  cases rec.port with
  | none => rfl
  | some portName =>
    -- a port without a node is passed over, as `shash_find` returns NULL
    cases hfind : s.shashFind portName with
    | none =>
      simp only [(interface_eq_none_iff hl).mpr hfind, Option.map_none, Option.elim_none, hfind]
    | some p =>
      obtain ⟨n, hp, rfl⟩ := (hl.shashFind_eq_some_iff portName p).mp hfind
      simp only [interface_eq hl hp, Option.map_some, Option.elim_some, hfind, s.node_eq_ok hp,
        ok_bind, foldl_refreshStatistic, RelayStatistics.mem_keys, true_and, Bool.false_or]
      let v : StatisticsVisit := (n.portName, n.dhcpRelayPktCounters)
      have hvalues : (fun key => if ((n.dhcpRelayPktCounters.get key).toNat : ℤ) ≠
          (r.published n.portName).count key then ((n.dhcpRelayPktCounters.get key).toNat : ℤ)
          else r.intValues key) = r.visitValues v := rfl
      have hany : (RelayStatistics.keys.any fun key =>
          ((n.dhcpRelayPktCounters.get key).toNat : ℤ) ≠ (r.published n.portName).count key)
          = decide (¬r.Right v) := any_differs v
      rw [hvalues, hany]
      show _ = Except.ok (r.visit v)
      unfold StatisticsRefresh.visit
      by_cases hright : r.Right v
      · rw [if_pos hright, decide_eq_false (not_not_intro hright)]
        rfl
      · rw [if_neg hright, decide_eq_true hright]
        rfl

/-- The refresh visits the rows that have a port with an interface node. -/
theorem refreshDhcpRelayStats_eq (hl : Linked s) (rows : List DhcpRelayRow)
    (published : CString → StatisticsMap) :
    refreshDhcpRelayStats s rows published =
      .ok ((rows.filterMap (statisticsVisit s)).foldl StatisticsRefresh.visit { published }) := by
  unfold refreshDhcpRelayStats
  generalize ({ published } : StatisticsRefresh) = r
  induction rows generalizing r with
  | nil => rfl
  | cons rec rows ih =>
    rw [List.foldlM_cons, refreshRow_eq hl, ok_bind, ih, List.filterMap_cons]
    cases statisticsVisit s rec with
    | none => rfl
    | some v => rfl

end visits

/-! ## When the columns are right -/

namespace StatisticsRefresh

variable {r : StatisticsRefresh} {v : StatisticsVisit}

/-- The column comes out right: no counter differs, or every slot of a counter that does not
differ holds its value already. -/
def Fits (r : StatisticsRefresh) (v : StatisticsVisit) : Prop :=
  r.Right v ∨ ∀ key, ¬r.Differs v key → r.intValues key = (v.2.get key).toNat

theorem visit_intValues (v : StatisticsVisit) (key : RelayStatistics) :
    (r.visit v).intValues key = r.visitValues v key := by
  unfold visit
  split
  · rfl
  · rfl

theorem visit_published_of_ne {portName : CString} (hne : portName ≠ v.1) :
    (r.visit v).published portName = r.published portName := by
  unfold visit
  split
  · rfl
  · exact Function.update_of_ne hne ..

/-- After a visit a counter differs if the column was written, with another value in the slot of
the counter, which did not differ. -/
theorem visit_differs_iff (key : RelayStatistics) :
    (r.visit v).Differs v key ↔
      ¬r.Right v ∧ ¬r.Differs v key ∧ ((v.2.get key).toNat : ℤ) ≠ r.intValues key := by
  unfold visit
  by_cases hright : r.Right v
  · rw [if_pos hright]
    exact iff_of_false (hright key) fun hcase => hcase.1 hright
  · rw [if_neg hright, and_iff_right hright]
    have hcolumn :
        (Function.update r.published v.1 (fun key => some (r.visitValues v key)) v.1).count key
          = r.visitValues v key := by
      rw [Function.update_self]
      rfl
    unfold Differs
    rw [hcolumn]
    unfold visitValues
    by_cases hdiffers : r.Differs v key
    · rw [if_pos hdiffers]
      exact iff_of_false (fun hne => hne rfl) fun hcase => hcase.1 hdiffers
    · rw [if_neg hdiffers]
      exact ⟨fun hne => ⟨hdiffers, hne⟩, fun hcase => hcase.2⟩

theorem visit_of_right (h : r.Right v) : (r.visit v).published = r.published := by
  unfold visit
  rw [if_pos h]

theorem right_congr {r' : StatisticsRefresh} (h : r'.published v.1 = r.published v.1) :
    r'.Right v ↔ r.Right v := by
  unfold Right Differs
  rw [h]

theorem visit_right_iff : (r.visit v).Right v ↔ r.Fits v := by
  unfold Fits
  by_cases hright : r.Right v
  · exact iff_of_true ((right_congr (congrFun (visit_of_right hright) v.1)).mpr hright)
      (Or.inl hright)
  · rw [or_iff_right hright]
    refine forall_congr' fun key => ?_
    rw [visit_differs_iff, and_iff_right hright, not_and, not_not]
    exact imp_congr_right fun _ => eq_comm

/-- The visits to other ports leave a column as it is. -/
theorem foldl_published_of_notMem {portName : CString} (vs : List StatisticsVisit)
    (hnot : portName ∉ vs.map Prod.fst) :
    (vs.foldl visit r).published portName = r.published portName := by
  induction vs generalizing r with
  | nil => rfl
  | cons v vs ih =>
    rw [List.map_cons, List.mem_cons, not_or] at hnot
    rw [List.foldl_cons, ih hnot.2, visit_published_of_ne hnot.1]

/-- The list of writes never shrinks. -/
theorem length_writes_le (vs : List StatisticsVisit) :
    r.writes.length ≤ (vs.foldl visit r).writes.length := by
  induction vs generalizing r with
  | nil => exact Nat.le_refl _
  | cons v vs ih =>
    refine Nat.le_trans ?_ (@ih (r.visit v))
    unfold visit
    split
    · exact Nat.le_refl _
    · rw [List.length_append]
      exact Nat.le_add_right _ _

/-- A visit that writes a column can be told from the list of writes. -/
theorem writes_foldl (vs : List StatisticsVisit) :
    (vs.foldl visit r).writes = r.writes ↔ ∀ v ∈ vs, r.Right v := by
  induction vs generalizing r with
  | nil => simp
  | cons v vs ih =>
    rw [List.foldl_cons, List.forall_mem_cons]
    -- a row that is right leaves the lists of all later rows as they are
    by_cases hright : r.Right v
    · have hwrites : (r.visit v).writes = r.writes := by
        unfold visit
        rw [if_pos hright]
      rw [← hwrites, and_iff_right hright]
      refine (@ih (r.visit v)).trans (forall₂_congr fun w _ => right_congr ?_)
      rw [visit_of_right hright]
    · -- the write of this visit stays in the list
      refine iff_of_false ?_ fun hall => hright hall.1
      intro hsame
      have hlen := @length_writes_le (r.visit v) vs
      have hone : (r.visit v).writes.length = r.writes.length + 1 := by
        unfold visit
        rw [if_neg hright]
        exact List.length_append
      rw [hsame, hone] at hlen
      omega

end StatisticsRefresh

/-! ## The columns by the rows -/

section rows

variable (published : CString → StatisticsMap)

mutual

/-- A counter of a row differs from the column that the earlier rows (the latest one first) leave.
Without an earlier row of the port the column is the published map. An earlier row of the port
leaves a difference if it found one, but not in this counter, and the last row before it whose
counter of this kind differed has another value. -/
def differsAfter : List StatisticsVisit → StatisticsVisit → RelayStatistics → Bool
  | [], v, key => ((v.2.get key).toNat : ℤ) ≠ (published v.1).count key
  | w :: earlier, v, key =>
    if w.1 = v.1 then
      RelayStatistics.keys.any (differsAfter earlier w) && !differsAfter earlier w key &&
        lastDiffering earlier key ≠ (v.2.get key).toNat
    else differsAfter earlier v key

/-- The counter of the last earlier row whose counter of this kind differed, 0 without such a
row. -/
def lastDiffering : List StatisticsVisit → RelayStatistics → ℤ
  | [], _ => 0
  | w :: earlier, key =>
    if differsAfter earlier w key then (w.2.get key).toNat else lastDiffering earlier key

end

/-- No counter of a row differs, or for each one that does not differ the last earlier row whose
counter of this kind differed has the same value, or it is 0 and there is no such row. -/
def CountersAgree (earlier : List StatisticsVisit) (v : StatisticsVisit) : Prop :=
  (∀ key, differsAfter published earlier v key = false) ∨
    ∀ key, differsAfter published earlier v key = false →
      lastDiffering published earlier key = (v.2.get key).toNat

instance (earlier : List StatisticsVisit) (v : StatisticsVisit) :
    Decidable (CountersAgree published earlier v) :=
  decidable_of_iff ((∀ key ∈ RelayStatistics.keys, differsAfter published earlier v key = false) ∨
      ∀ key ∈ RelayStatistics.keys, differsAfter published earlier v key = false →
        lastDiffering published earlier key = (v.2.get key).toNat)
    (or_congr ⟨fun h key => h key (RelayStatistics.mem_keys key), fun h key _ => h key⟩
      ⟨fun h key => h key (RelayStatistics.mem_keys key), fun h key _ => h key⟩)

/-- The counters of each port agree at the last row of the port. -/
def CountersAgreeAtLastRows (visits : List StatisticsVisit) : Prop :=
  ∀ before v after, visits = before ++ v :: after → v.1 ∉ after.map Prod.fst →
    CountersAgree published before.reverse v

/-- The counters of each row agree, if no port has two rows: none differs from the published map, or
those that do not have the value of the last row before whose counter of the kind differed. -/
def CountersAgreeInOrder (visits : List StatisticsVisit) : Prop :=
  ∀ before v after, visits = before ++ v :: after →
    (∀ key, ((v.2.get key).toNat : ℤ) = (published v.1).count key) ∨
      ∀ key, ((v.2.get key).toNat : ℤ) = (published v.1).count key →
        ((before.reverse.find? fun w =>
          ((w.2.get key).toNat : ℤ) ≠ (published w.1).count key).elim 0
            fun w => ((w.2.get key).toNat : ℤ)) = (v.2.get key).toNat

variable {published}

/-- For the first row of a port the column is the published map. -/
theorem differsAfter_of_notMem {earlier : List StatisticsVisit} {v : StatisticsVisit}
    (hfirst : v.1 ∉ earlier.map Prod.fst) (key : RelayStatistics) :
    differsAfter published earlier v key =
      decide (((v.2.get key).toNat : ℤ) ≠ (published v.1).count key) := by
  induction earlier with
  | nil => rw [differsAfter]
  | cons w earlier ih =>
    rw [List.map_cons, List.mem_cons, not_or] at hfirst
    rw [differsAfter, if_neg (Ne.symm hfirst.1), ih hfirst.2]

/-- Where no port has two rows, the columns that the counters are compared with are the published
maps. -/
theorem lastDiffering_of_nodup {earlier : List StatisticsVisit}
    (hnodup : (earlier.map Prod.fst).Nodup) (key : RelayStatistics) :
    lastDiffering published earlier key =
      ((earlier.find? fun w => ((w.2.get key).toNat : ℤ) ≠ (published w.1).count key).elim 0
        fun w => ((w.2.get key).toNat : ℤ)) := by
  induction earlier with
  | nil =>
    rw [lastDiffering]
    rfl
  | cons w earlier ih =>
    rw [List.map_cons, List.nodup_cons] at hnodup
    rw [lastDiffering, differsAfter_of_notMem hnodup.1, List.find?_cons]
    by_cases hdiffers : ((w.2.get key).toNat : ℤ) ≠ (published w.1).count key
    · rw [decide_eq_true hdiffers]
      rfl
    · rw [decide_eq_false hdiffers, if_neg Bool.false_ne_true]
      exact ih hnodup.2

theorem countersAgreeAtLastRows_iff_of_nodup {vs : List StatisticsVisit}
    (hnodup : (vs.map Prod.fst).Nodup) :
    CountersAgreeAtLastRows published vs ↔ CountersAgreeInOrder published vs := by
  unfold CountersAgreeAtLastRows CountersAgreeInOrder
  refine forall_congr' fun before => forall_congr' fun v => forall_congr' fun after =>
    forall_congr' fun hvs => ?_
  rw [hvs, List.map_append, List.map_cons, List.nodup_append, List.nodup_cons] at hnodup
  obtain ⟨hbefore, ⟨hafter, -⟩, hapart⟩ := hnodup
  have hfirst : v.1 ∉ before.reverse.map Prod.fst := by
    intro hmem
    rw [List.map_reverse, List.mem_reverse] at hmem
    exact hapart _ hmem _ List.mem_cons_self rfl
  have hearlier : (before.reverse.map Prod.fst).Nodup := by
    rw [List.map_reverse]
    exact List.nodup_reverse.mpr hbefore
  rw [imp_iff_right hafter]
  unfold CountersAgree
  simp only [differsAfter_of_notMem hfirst, lastDiffering_of_nodup hearlier,
    decide_eq_false_iff_not, not_not]

variable (published) in
/-- The walk after the earlier rows. -/
def StatisticsRefresh.after (earlier : List StatisticsVisit) : StatisticsRefresh :=
  earlier.foldr (fun w r => r.visit w) { published }

/-- The earlier rows leave the array and the columns that the definitions above say. -/
theorem visits_earlier (vs : List StatisticsVisit)
    (hsame : ∀ v ∈ vs, ∀ w ∈ vs, v.1 = w.1 → v = w) (earlier : List StatisticsVisit)
    (hearlier : ∀ w ∈ earlier, w ∈ vs) :
    (∀ key, (StatisticsRefresh.after published earlier).intValues key =
        lastDiffering published earlier key) ∧
      ∀ v ∈ vs, ∀ key, (StatisticsRefresh.after published earlier).Differs v key ↔
        differsAfter published earlier v key = true := by
  -- from the first row on: what the slots and the maps are after the rows visited so far
  induction earlier with
  | nil =>
    constructor
    · intro key
      rw [lastDiffering]
      rfl
    · intro v _ key
      rw [differsAfter, decide_eq_true_iff]
      rfl
  | cons w earlier ih =>
    obtain ⟨hvalues, hdiffers⟩ := ih fun u hu => hearlier u (List.mem_cons_of_mem _ hu)
    have hw : w ∈ vs := hearlier w List.mem_cons_self
    set r := StatisticsRefresh.after published earlier
    show (∀ key, (r.visit w).intValues key = _) ∧ ∀ v ∈ vs, ∀ key, (r.visit w).Differs v key ↔ _
    have hslots : ∀ key, r.visitValues w key = lastDiffering published (w :: earlier) key := by
      intro key
      rw [lastDiffering]
      unfold StatisticsRefresh.visitValues
      rw [hvalues key]
      exact if_congr (hdiffers w hw key) rfl rfl
    refine ⟨fun key => (StatisticsRefresh.visit_intValues w key).trans (hslots key), ?_⟩
    intro v hv key
    rw [differsAfter]
    -- only a row of the same port changes the map that the port is compared with
    by_cases hname : w.1 = v.1
    · obtain rfl := hsame w hw v hv hname
      rw [if_pos rfl, StatisticsRefresh.visit_differs_iff, Bool.and_eq_true, Bool.and_eq_true,
        Bool.not_eq_true', decide_eq_true_iff, ← hvalues key, ← Bool.not_eq_true,
        ← hdiffers w hw key, List.any_eq_true]
      unfold StatisticsRefresh.Right
      rw [not_forall, and_assoc]
      refine and_congr (exists_congr fun key' => ?_) (and_congr_right fun _ => ne_comm)
      rw [not_not, hdiffers w hw key', and_iff_right (RelayStatistics.mem_keys key')]
    · rw [if_neg hname, ← hdiffers v hv key]
      unfold StatisticsRefresh.Differs
      rw [StatisticsRefresh.visit_published_of_ne (Ne.symm hname)]

/-- The last row of a port. -/
theorem exists_last_visit {vs : List StatisticsVisit}
    (hsame : ∀ v ∈ vs, ∀ w ∈ vs, v.1 = w.1 → v = w) {v : StatisticsVisit} (hv : v ∈ vs) :
    ∃ before after, vs = before ++ v :: after ∧ v.1 ∉ after.map Prod.fst := by
  obtain ⟨after, before, hsplit, hnot⟩ := List.eq_append_cons_of_mem (List.mem_reverse.mpr hv)
  have hvs : vs = before.reverse ++ v :: after.reverse := by
    rw [← List.reverse_reverse vs, hsplit]
    simp
  refine ⟨before.reverse, after.reverse, hvs, fun hmem => ?_⟩
  obtain ⟨w, hw, hname⟩ := List.mem_map.mp hmem
  have hwvs : w ∈ vs := by
    rw [hvs]
    exact List.mem_append_right _ (List.mem_cons_of_mem _ hw)
  obtain rfl := hsame w hwvs v hv hname
  exact hnot (List.mem_reverse.mp hw)

/-- A column is right in the end if it comes out right at the last row of the port. -/
theorem forall_right_iff (vs : List StatisticsVisit)
    (hsame : ∀ v ∈ vs, ∀ w ∈ vs, v.1 = w.1 → v = w) :
    (∀ v ∈ vs, (vs.foldl StatisticsRefresh.visit { published }).Right v) ↔
      CountersAgreeAtLastRows published vs := by
  -- the column is what the last row of the port writes
  have hlast : ∀ before v after, vs = before ++ v :: after → v.1 ∉ after.map Prod.fst →
      ((vs.foldl StatisticsRefresh.visit { published }).Right v ↔
        CountersAgree published before.reverse v) := by
    intro before v after hvs hafter
    have hv : v ∈ vs := by
      rw [hvs]
      exact List.mem_append_right _ List.mem_cons_self
    obtain ⟨hvalues, hdiffers⟩ := @visits_earlier published vs hsame before.reverse
      fun w hw => by
        rw [hvs]
        exact List.mem_append_left _ (List.mem_reverse.mp hw)
    unfold StatisticsRefresh.after at hvalues hdiffers
    rw [List.foldr_reverse] at hvalues hdiffers
    rw [hvs, List.foldl_append, List.foldl_cons, StatisticsRefresh.right_congr
      (StatisticsRefresh.foldl_published_of_notMem after hafter),
      StatisticsRefresh.visit_right_iff]
    unfold StatisticsRefresh.Fits StatisticsRefresh.Right CountersAgree
    simp only [hdiffers v hv, hvalues, Bool.not_eq_true]
  constructor
  · intro hright before v after hvs hafter
    have hv : v ∈ vs := by
      rw [hvs]
      exact List.mem_append_right _ List.mem_cons_self
    exact (hlast before v after hvs hafter).mp (hright v hv)
  · intro hagree v hv
    obtain ⟨before, after, hvs, hafter⟩ := exists_last_visit hsame hv
    exact (hlast before v after hvs hafter).mpr (hagree before v after hvs hafter)

end rows

/-- What is asked of a refresh: every port with a row and an interface node gets the node's
eight counters, and a second refresh has nothing to write. -/
def PublishesCounters (s : State) (rows : List DhcpRelayRow)
    (published : CString → StatisticsMap) : Prop :=
  ∃ r, refreshDhcpRelayStats s rows published = .ok r ∧
    (∀ rec ∈ rows, ∀ portName n ks, rec.port = some portName →
      s.interface portName = some (n, ks) → ∀ key,
      (r.published portName).count key = (n.dhcpRelayPktCounters.get key).toNat) ∧
    ∃ r', refreshDhcpRelayStats s rows r.published = .ok r' ∧ r'.writes = []

/-- The visits of a refresh. -/
theorem mem_statisticsVisits_iff {s : State} {rows : List DhcpRelayRow} {v : StatisticsVisit} :
    v ∈ rows.filterMap (statisticsVisit s) ↔ ∃ rec ∈ rows, ∃ n ks, rec.port = some v.1 ∧
      s.interface v.1 = some (n, ks) ∧ v.2 = n.dhcpRelayPktCounters := by
  rw [List.mem_filterMap]
  refine exists_congr fun rec => and_congr_right fun _ => ?_
  unfold statisticsVisit
  cases rec.port with
  | none => simp
  | some portName =>
    simp only [Option.map_eq_some_iff, Prod.exists, Option.some.injEq]
    constructor
    · intro hcase
      obtain ⟨n, ks, hintf, rfl⟩ := hcase
      exact ⟨n, ks, rfl, hintf, rfl⟩
    · intro hcase
      obtain ⟨n, ks, rfl, hintf, hcounters⟩ := hcase
      exact ⟨n, ks, hintf, Prod.ext rfl hcounters.symm⟩

/-- Two visits of one port are the same visit. -/
theorem statisticsVisit_eq_of_port {s : State} {rows : List DhcpRelayRow} {v w : StatisticsVisit}
    (hv : v ∈ rows.filterMap (statisticsVisit s)) (hw : w ∈ rows.filterMap (statisticsVisit s))
    (hname : v.1 = w.1) : v = w := by
  obtain ⟨-, -, n, ks, -, hintf, hcounters⟩ := mem_statisticsVisits_iff.mp hv
  obtain ⟨-, -, n', ks', -, hintf', hcounters'⟩ := mem_statisticsVisits_iff.mp hw
  rw [hname, hintf', Option.some.injEq, Prod.mk.injEq] at hintf
  exact Prod.ext hname (by rw [hcounters, hcounters', hintf.1])

theorem publishesCounters_iff {s : State} (hl : Linked s) (rows : List DhcpRelayRow)
    (published : CString → StatisticsMap) :
    PublishesCounters s rows published ↔
      CountersAgreeAtLastRows published (rows.filterMap (statisticsVisit s)) := by
  rw [← forall_right_iff _ fun v hv w hw => statisticsVisit_eq_of_port hv hw]
  unfold PublishesCounters
  simp only [refreshDhcpRelayStats_eq hl, Except.ok.injEq, exists_eq_left']
  set vs := rows.filterMap (statisticsVisit s)
  set r := vs.foldl StatisticsRefresh.visit { published }
  have hwrites := @StatisticsRefresh.writes_foldl { published := r.published } vs
  constructor
  -- a row that is visited has a node, so the column shows its counters
  · intro hcase v hv key hdiffers
    obtain ⟨rec, hrec, n, ks, hport, hintf, hcounters⟩ := mem_statisticsVisits_iff.mp hv
    have hcount := hcase.1 rec hrec v.1 n ks hport hintf key
    unfold StatisticsRefresh.Differs at hdiffers
    rw [hcounters] at hdiffers
    exact hdiffers hcount.symm
  · -- a right column has the counters, and is not written by a second refresh
    intro hright
    refine ⟨?_, hwrites.mpr fun v hv => (StatisticsRefresh.right_congr rfl).mp (hright v hv)⟩
    intro rec hrec portName n ks hport hintf key
    have hv : (portName, n.dhcpRelayPktCounters) ∈ vs :=
      mem_statisticsVisits_iff.mpr ⟨rec, hrec, n, ks, hport, hintf, rfl⟩
    exact (not_not.mp (hright _ hv key)).symm

/-- A refresh publishes the counters exactly if they agree at the last row of each port, and where
no port has two rows exactly if they agree row by row. -/
theorem refreshDhcpRelayStats_publishes_iff {s : State} (hl : Linked s)
    (rows : List DhcpRelayRow) (published : CString → StatisticsMap) :
    (PublishesCounters s rows published ↔
      CountersAgreeAtLastRows published (rows.filterMap (statisticsVisit s))) ∧
    (((rows.filterMap (statisticsVisit s)).map Prod.fst).Nodup →
      (PublishesCounters s rows published ↔
        CountersAgreeInOrder published (rows.filterMap (statisticsVisit s)))) := by
  refine ⟨publishesCounters_iff hl rows published, fun hnodup => ?_⟩
  rw [publishesCounters_iff hl rows published, countersAgreeAtLastRows_iff_of_nodup hnodup]

/-- Interface `1` with one valid and two dropped requests. -/
def countedState : State :=
  (udpfwdCreateIntferfaceNode (State.empty fun a port => a ^^^ port) ['1']).2.counted 0
    fun c => { c with clientValids := 1, clientDrops := 2 }

theorem linked_countedState : Linked countedState := by
  have hempty := (CacheInv.empty fun a port => a ^^^ port).linked
  obtain ⟨p, s, hrun, hl, -⟩ := @udpfwdCreateIntferfaceNode_eq _ hempty ['1'] rfl
  have hstate : (udpfwdCreateIntferfaceNode (State.empty fun a port => a ^^^ port) ['1']).2 = s :=
    congrArg Prod.snd hrun
  unfold countedState
  rw [hstate]
  exact State.linked_counted hl _

/-- Nothing is published yet. -/
theorem refreshDhcpRelayStats_publishes_iff_first :
    PublishesCounters countedState [⟨some ['1'], some ['v'], none, []⟩] (fun _ _ => none) ∧
      CountersAgreeInOrder (fun _ _ => none) [(['1'], ⟨2, 1, 0, 0, 0, 0, 0, 0⟩)] := by
  obtain ⟨hall, hinOrder⟩ := refreshDhcpRelayStats_publishes_iff linked_countedState
    [⟨some ['1'], some ['v'], none, []⟩] (fun _ _ => none)
  have hpublishes := hall.mpr fun before v after hvisits _ => by
    have hone : [(['1'], (⟨2, 1, 0, 0, 0, 0, 0, 0⟩ : DhcpRelayPktCounter))]
      = before ++ v :: after := hvisits
    rcases List.cons_eq_append_iff.mp hone with ⟨rfl, hcons⟩ | ⟨before', -, htail⟩
    · cases hcons
      decide
    · simp at htail
  exact ⟨hpublishes, (hinOrder (by decide)).mp hpublishes⟩

/-- The two dropped requests are published already, and the valid one is not: the new column
says that no request was dropped. -/
theorem refresh_forgets_published :
    ¬PublishesCounters countedState [⟨some ['1'], some ['v'], none, []⟩]
      (fun _ key => if key = .droppedV4clientRequests then some 2 else none) := by
  intro hpublishes
  obtain ⟨r, hrun, hright, -⟩ := hpublishes
  have hdropped := hright _ List.mem_cons_self ['1']
    ⟨['1'], 0, none, 0, ⟨2, 1, 0, 0, 0, 0, 0, 0⟩⟩ [] rfl (by rfl) .droppedV4clientRequests
  rw [← Except.ok.inj hrun] at hdropped
  exact absurd hdropped (by decide)

end Udpfwd
end IpApps
