import IpApps.Udpfwd.GlobalConfig
import IpApps.Udpfwd.Statistics
import Mathlib.Algebra.Group.Nat.Even
import Mathlib.Data.List.Chain
import Mathlib.Logic.Function.Iterate

/-!
# Statistics over time

`udpfwd_reconfigure` starts with `run_stats_update`, which refreshes the statistics columns unless
it did so a short time ago, and goes on to the global configuration, where the interval between two
refreshes is set. `refreshes_spaced` says exactly when a call refreshes the columns.

A refresh writes 0 for the counters that were right before. `columns_of_repeats` says what becomes
of a column over any number of refreshes while no counter changes: it comes to show the counters
if those that are not zero were all right or all wrong, and otherwise shows the two halves in turn,
for ever.
-/

namespace IpApps
namespace Udpfwd

open ExceptLoops

/-! ## Writing zeros for what is right -/

section republish

variable {ι : Type} {c f : ι → ℤ}

open Classical in
/-- What becomes of the values `f` when they are compared with `c`: if any differ, those that
do are set and the others get 0. -/
noncomputable def republish (c f : ι → ℤ) : ι → ℤ :=
  if f = c then f else fun i => if f i = c i then 0 else c i

/-- Those of the values `c` that are not zero are all wrong in `f`, or all right. -/
def Settles (c f : ι → ℤ) : Prop := (∀ i, f i = c i → c i = 0) ∨ ∀ i, f i ≠ c i → c i = 0

theorem republish_self : republish c c = c := if_pos rfl

theorem republish_of_ne (h : f ≠ c) : republish c f = fun i => if f i = c i then 0 else c i :=
  if_neg h

theorem republish_republish (h : Settles c f) : republish c (republish c f) = c := by
  by_cases heq : f = c
  · rw [heq, republish_self, republish_self]
  rcases h with hright | hwrong
  · -- one round is enough
    have hfirst : republish c f = c := by
      rw [republish_of_ne heq]
      funext i
      by_cases hi : f i = c i
      · rw [if_pos hi, hright i hi]
      · rw [if_neg hi]
    rw [hfirst, republish_self]
  · -- the first round writes nothing but zeros
    have hfirst : republish c f = fun _ => 0 := by
      rw [republish_of_ne heq]
      funext i
      by_cases hi : f i = c i
      · rw [if_pos hi]
      · rw [if_neg hi, hwrong i hi]
    rw [hfirst]
    by_cases hzero : (fun _ => 0) = c
    · rw [hzero, republish_self]
    · rw [republish_of_ne hzero]
      funext i
      by_cases hi : 0 = c i
      · rw [if_pos hi, ← hi]
      · rw [if_neg hi]

theorem iterate_republish_of_settles (h : Settles c f) {n : ℕ} (hn : 2 ≤ n) :
    (republish c)^[n] f = c := by
  obtain ⟨m, rfl⟩ := Nat.exists_eq_add_of_le' hn
  rw [Function.iterate_add_apply]
  show (republish c)^[m] (republish c (republish c f)) = c
  rw [republish_republish h]
  exact Function.iterate_fixed republish_self m

/-- Otherwise one that is not zero was right and one was wrong, so that one of the two is missing
when the values that were wrong and those that were right are shown in turn. -/
theorem turns_ne (h : ¬Settles c f) (n : ℕ) :
    (fun i => if f i = c i ↔ Even n then c i else 0) ≠ c := by
  unfold Settles at h
  rw [not_or, not_forall, not_forall] at h
  obtain ⟨⟨i, hi⟩, ⟨j, hj⟩⟩ := h
  obtain ⟨hright, hizero⟩ := Classical.not_imp.mp hi
  obtain ⟨hwrong, hjzero⟩ := Classical.not_imp.mp hj
  intro heq
  by_cases hn : Even n
  · have hvalue := congrFun heq j
    simp only [hn, iff_true, if_neg hwrong] at hvalue
    exact hjzero hvalue.symm
  · have hvalue := congrFun heq i
    simp only [hn, hright, iff_false, not_true_eq_false, if_false] at hvalue
    exact hizero hvalue.symm

theorem ne_of_not_settles (h : ¬Settles c f) : f ≠ c := by
  intro heq
  exact h (Or.inr fun i hi => absurd (congrFun heq i) hi)

theorem iterate_republish_of_not_settles (h : ¬Settles c f) {n : ℕ} (hn : 0 < n) :
    (republish c)^[n] f = fun i => if f i = c i ↔ Even n then c i else 0 := by
  induction n with
  | zero => exact absurd hn (Nat.lt_irrefl 0)
  | succ n ih =>
    rw [Function.iterate_succ_apply']
    by_cases hzero : n = 0
    · subst hzero
      show republish c f = _
      rw [republish_of_ne (ne_of_not_settles h)]
      funext k
      by_cases hk : f k = c k <;> simp [hk]
    · rw [ih (Nat.pos_of_ne_zero hzero), republish_of_ne (turns_ne h n)]
      funext k
      have hnext : Even (n + 1) ↔ ¬Even n := Nat.even_add_one
      by_cases hshown : f k = c k ↔ Even n
      · -- it was shown, and is not shown again
        have hnot : ¬(f k = c k ↔ Even (n + 1)) := by
          rw [hnext, hshown]
          exact iff_not_self
        rw [if_pos hshown, if_neg hnot, if_pos rfl]
      · have hagain : f k = c k ↔ Even (n + 1) := by
          rw [hnext]
          exact (not_iff_comm.mp (not_iff.mp hshown)).symm
        rw [if_neg hshown, if_pos hagain]
        by_cases hck : 0 = c k
        · rw [if_pos hck, ← hck]
        · rw [if_neg hck]

theorem iterate_republish_ne (h : ¬Settles c f) (n : ℕ) : (republish c)^[n] f ≠ c := by
  cases n with
  | zero => exact ne_of_not_settles h
  | succ n =>
    rw [iterate_republish_of_not_settles h (Nat.succ_pos n)]
    exact turns_ne h (n + 1)

end republish

/-! ## One refresh -/

/-- The counters of a visit, as they are published. -/
def StatisticsVisit.counts (v : StatisticsVisit) (key : RelayStatistics) : ℤ := (v.2.get key).toNat

/-- The column of a port shows its counters. -/
def ShowsCounters (published : CString → StatisticsMap) (v : StatisticsVisit) : Prop :=
  (published v.1).count = v.counts

section refresh

variable {r : StatisticsRefresh} {v : StatisticsVisit}

theorem right_iff_shows : r.Right v ↔ ShowsCounters r.published v := by
  unfold StatisticsRefresh.Right StatisticsRefresh.Differs ShowsCounters
  rw [funext_iff]
  exact forall_congr' fun key => not_not.trans eq_comm

/-- A visit before which nothing has been collected. -/
theorem visit_count (hvalues : r.intValues = fun _ => 0) :
    ((r.visit v).published v.1).count = republish v.counts (r.published v.1).count := by
  unfold StatisticsRefresh.visit
  -- a column that is right is not written; else a slot is filled where its counter differs
  by_cases hright : r.Right v
  · rw [if_pos hright]
    have hshows : (r.published v.1).count = v.counts := right_iff_shows.mp hright
    rw [hshows, republish_self]
  · rw [if_neg hright, republish_of_ne fun heq => hright (right_iff_shows.mpr heq)]
    funext key
    show ((Function.update r.published v.1 (fun key => some (r.visitValues v key)) v.1).count key)
      = _
    rw [Function.update_self]
    show r.visitValues v key = _
    unfold StatisticsRefresh.visitValues
    by_cases hdiffers : r.Differs v key
    · rw [if_pos hdiffers, if_neg fun heq => hdiffers heq.symm]
      rfl
    · have hkey : (r.published v.1).count key = v.counts key := (not_not.mp hdiffers).symm
      rw [if_neg hdiffers, if_pos hkey, hvalues]

theorem visit_of_shows (h : ShowsCounters r.published v) : r.visit v = r := by
  have hright := right_iff_shows.mpr h
  unfold StatisticsRefresh.visit
  rw [if_pos hright]
  have hvalues : r.visitValues v = r.intValues := funext fun key => if_neg (hright key)
  rw [hvalues]

theorem foldl_visit_of_shows (vs : List StatisticsVisit)
    (h : ∀ v ∈ vs, ShowsCounters r.published v) : vs.foldl StatisticsRefresh.visit r = r := by
  induction vs with
  | nil => rfl
  | cons v vs ih =>
    rw [List.foldl_cons, visit_of_shows (h v List.mem_cons_self)]
    exact ih fun w hw => h w (List.mem_cons_of_mem _ hw)

/-- A column that shows the counters of its port is not written. -/
theorem foldl_published_of_shows {portName : CString} (vs : List StatisticsVisit)
    (h : ∀ v ∈ vs, v.1 = portName → ShowsCounters r.published v) :
    (vs.foldl StatisticsRefresh.visit r).published portName = r.published portName := by
  induction vs generalizing r with
  | nil => rfl
  | cons v vs ih =>
    have hstep : (r.visit v).published portName = r.published portName := by
      by_cases hname : v.1 = portName
      · rw [visit_of_shows (h v List.mem_cons_self hname)]
      · exact StatisticsRefresh.visit_published_of_ne (Ne.symm hname)
    rw [List.foldl_cons, ih, hstep]
    intro w hw hname
    have hshows := h w (List.mem_cons_of_mem _ hw) hname
    unfold ShowsCounters at hshows ⊢
    rw [hname, hstep, ← hname]
    exact hshows

/-- A refresh of a port whose column is written once, after columns that are right. -/
theorem refresh_count {published : CString → StatisticsMap} {vs before after : List StatisticsVisit}
    (hvs : vs = before ++ v :: after) (hsame : ∀ v ∈ vs, ∀ w ∈ vs, v.1 = w.1 → v = w)
    (hlast : v.1 ∉ after.map Prod.fst) (hbefore : ∀ w ∈ before, ShowsCounters published w) :
    (((vs.foldl StatisticsRefresh.visit { published }).published v.1).count =
        republish v.counts (published v.1).count) ∧
      ∀ w ∈ before,
        ShowsCounters (vs.foldl StatisticsRefresh.visit { published }).published w := by
  constructor
  · rw [hvs, List.foldl_append, foldl_visit_of_shows before hbefore, List.foldl_cons,
      StatisticsRefresh.foldl_published_of_notMem after hlast]
    exact visit_count rfl
  · intro w hw
    have hmem : w ∈ vs := hvs ▸ List.mem_append_left _ hw
    have hkept : (vs.foldl StatisticsRefresh.visit { published }).published w.1
        = published w.1 := by
      refine foldl_published_of_shows vs fun u hu hname => ?_
      rw [hsame u hu w hmem hname]
      exact hbefore w hw
    unfold ShowsCounters
    rw [hkept]
    exact hbefore w hw

end refresh

/-! ## The rate limit -/

/-- `LLONG_MIN`. -/
def llongMin : ℤ := -2 ^ 63

/-- The static variables of `run_stats_update`. -/
structure StatsTimer where
  statsTimerInterval : Int32
  statsTimer : ℤ

/-- Before the first call. -/
def StatsTimer.initial : StatsTimer := ⟨0, llongMin⟩

/-- Another interval than at the last call starts the timer anew. -/
def StatsTimer.adjusted (timer : StatsTimer) (statsInterval : Int32) : StatsTimer :=
  if timer.statsTimerInterval ≠ statsInterval then ⟨statsInterval, llongMin⟩ else timer

/-- `run_stats_update`, with the two times in milliseconds that `time_msec` returns. -/
def runStatsUpdate (s : State) (rows : List DhcpRelayRow) (statsInterval : Int32) (now later : ℕ)
    (timer : StatsTimer) (published : CString → StatisticsMap) :
    Except Fault (StatsTimer × (CString → StatisticsMap)) := do
  let timer := timer.adjusted statsInterval
  if timer.statsTimer ≤ now then
    let r ← refreshDhcpRelayStats s rows published
    return ({ timer with statsTimer := later + timer.statsTimerInterval.toInt }, r.published)
  else return (timer, published)

/-- What the daemon keeps for the statistics, and the columns. -/
structure StatsDaemon where
  cb : GlobalConfig
  timer : StatsTimer
  published : CString → StatisticsMap

/-- What a call of `udpfwd_reconfigure` finds. -/
structure StatsCall where
  state : State
  rows : List DhcpRelayRow
  systemRow : Option SystemRow
  now : ℕ
  later : ℕ

/-- `udpfwd_reconfigure` up to the servers. -/
def StatsDaemon.reconfigure (d : StatsDaemon) (call : StatsCall) : Except Fault StatsDaemon := do
  let (timer, published) ←
    runStatsUpdate call.state call.rows d.cb.statsInterval call.now call.later d.timer d.published
  return ⟨udpfwdProcessGlobalconfigUpdate d.cb call.systemRow, timer, published⟩

/-- A call at this time refreshes the columns. -/
def StatsDaemon.Refreshes (d : StatsDaemon) (now : ℕ) : Prop :=
  (d.timer.adjusted d.cb.statsInterval).statsTimer ≤ now

instance (d : StatsDaemon) (now : ℕ) : Decidable (d.Refreshes now) :=
  inferInstanceAs (Decidable (_ ≤ _))

/-- A refresh: the interval in force, and the times before and after. -/
structure Refreshed where
  interval : Int32
  now : ℕ
  later : ℕ

/-- The timer after the refreshes of a run, the last one first. -/
def timerAfter : List Refreshed → StatsTimer
  | [] => .initial
  | e :: _ => ⟨e.interval, e.later + e.interval.toInt⟩

/-- The runs of the daemon, with the refreshes, the last one first. -/
inductive StatsRun : StatsDaemon → List Refreshed → Prop
  | start (cb : GlobalConfig) (published : CString → StatisticsMap) :
      StatsRun ⟨cb, .initial, published⟩ []
  | call {d d' : StatsDaemon} {refreshes : List Refreshed} (h : StatsRun d refreshes)
      (call : StatsCall) (hrun : d.reconfigure call = .ok d') :
      StatsRun d' (if d.Refreshes call.now then
        ⟨d.cb.statsInterval, call.now, call.later⟩ :: refreshes else refreshes)

section timer

variable {d d' : StatsDaemon} {call : StatsCall} {refreshes : List Refreshed}

theorem StatsTimer.adjusted_interval (timer : StatsTimer) (statsInterval : Int32) :
    (timer.adjusted statsInterval).statsTimerInterval = statsInterval := by
  unfold adjusted
  by_cases hne : timer.statsTimerInterval ≠ statsInterval
  · rw [if_pos hne]
  · rw [if_neg hne]
    exact not_not.mp hne

theorem llongMin_le (now : ℕ) : llongMin ≤ now := by
  unfold llongMin
  omega

/-- A call at another interval refreshes the columns, so that one that does not leaves the timer
alone. -/
theorem StatsDaemon.refreshes_iff (now : ℕ) : d.Refreshes now ↔
    (d.timer.statsTimerInterval = d.cb.statsInterval → d.timer.statsTimer ≤ now) := by
  unfold StatsDaemon.Refreshes StatsTimer.adjusted
  by_cases hsame : d.timer.statsTimerInterval = d.cb.statsInterval
  · rw [if_neg (not_not_intro hsame), forall_prop_of_true hsame]
  · rw [if_pos hsame, forall_prop_of_false hsame]
    exact iff_of_true (llongMin_le now) trivial

theorem StatsDaemon.reconfigure_eq (d : StatsDaemon) (call : StatsCall) :
    d.reconfigure call =
      if d.Refreshes call.now then do
        let r ← refreshDhcpRelayStats call.state call.rows d.published
        return ⟨udpfwdProcessGlobalconfigUpdate d.cb call.systemRow,
          ⟨d.cb.statsInterval, call.later + d.cb.statsInterval.toInt⟩, r.published⟩
      else .ok ⟨udpfwdProcessGlobalconfigUpdate d.cb call.systemRow, d.timer, d.published⟩ := by
  unfold StatsDaemon.reconfigure runStatsUpdate
  by_cases hrefreshes : d.Refreshes call.now
  · rw [if_pos hrefreshes]
    dsimp only
    rw [if_pos (show (d.timer.adjusted d.cb.statsInterval).statsTimer ≤ call.now from hrefreshes),
      StatsTimer.adjusted_interval]
    cases refreshDhcpRelayStats call.state call.rows d.published with
    | error err => rfl
    | ok r => rfl
  · have hsame : d.timer.adjusted d.cb.statsInterval = d.timer := by
      rw [StatsDaemon.refreshes_iff, Classical.not_imp] at hrefreshes
      exact if_neg (not_not_intro hrefreshes.1)
    rw [if_neg hrefreshes]
    dsimp only
    rw [if_neg (show ¬(d.timer.adjusted d.cb.statsInterval).statsTimer ≤ call.now from hrefreshes),
      hsame]
    rfl

/-- The timer is set by the last refresh. -/
theorem StatsRun.timer_eq (h : StatsRun d refreshes) :
    d.timer = timerAfter refreshes := by
  induction h with
  | start cb published => rfl
  | @call d d' refreshes h call hrun ih =>
    rw [StatsDaemon.reconfigure_eq] at hrun
    by_cases hrefreshes : d.Refreshes call.now
    · rw [if_pos hrefreshes] at hrun ⊢
      obtain ⟨r, -, hrun⟩ := bind_eq_ok hrun
      rw [← Except.ok.inj hrun]
      rfl
    · rw [if_neg hrefreshes] at hrun ⊢
      rw [← Except.ok.inj hrun]
      exact ih

/-- A call refreshes the columns exactly if no other one has done so yet, or the interval has
changed since, or it has passed. -/
theorem StatsRun.refreshes_iff (h : StatsRun d refreshes) (now : ℕ) :
    d.Refreshes now ↔ ∀ e ∈ refreshes.head?, e.interval = d.cb.statsInterval →
      e.later + e.interval.toInt ≤ now := by
  have htimer := h.timer_eq
  rw [StatsDaemon.refreshes_iff, htimer]
  cases refreshes with
  | nil =>
    refine iff_of_true (fun _ => llongMin_le now) fun e he => ?_
    exact absurd he (by simp)
  | cons e refreshes => simp [timerAfter]

/-- In every run, refreshes at one interval are that interval apart, and a call is one unless
the last refresh was at the same interval and the interval has not passed. -/
theorem refreshes_spaced (h : StatsRun d refreshes) :
    refreshes.IsChain (fun e e' =>
        e'.interval = e.interval → (e'.later : ℤ) + e'.interval.toInt ≤ e.now) ∧
      ∀ now, d.Refreshes now ↔ ∀ e ∈ refreshes.head?, e.interval = d.cb.statsInterval →
        e.later + e.interval.toInt ≤ now := by
  refine ⟨?_, h.refreshes_iff⟩
  induction h with
  | start cb published => exact List.isChain_nil
  | @call d d' refreshes h call hrun ih =>
    by_cases hrefreshes : d.Refreshes call.now
    · rw [if_pos hrefreshes, List.isChain_cons]
      exact ⟨(h.refreshes_iff call.now).mp hrefreshes, ih⟩
    · rw [if_neg hrefreshes]
      exact ih

end timer

/-- A call that finds one interface with counters. -/
def countedCall (now later : ℕ) : StatsCall :=
  ⟨countedState, [⟨some ['1'], some ['v'], none, []⟩], none, now, later⟩

theorem StatsDaemon.reconfigure_countedCall {d : StatsDaemon} {now : ℕ} (h : d.Refreshes now)
    (later : ℕ) : ∃ d', d.reconfigure (countedCall now later) = .ok d' ∧ d'.cb = d.cb ∧
      d'.timer = ⟨d.cb.statsInterval, later + d.cb.statsInterval.toInt⟩ := by
  have hcall : d.Refreshes (countedCall now later).now := h
  rw [StatsDaemon.reconfigure_eq, if_pos hcall]
  dsimp only [countedCall]
  rw [refreshDhcpRelayStats_eq linked_countedState, ok_bind]
  exact ⟨_, rfl, rfl, rfl⟩

/-- The daemon before its first call. -/
def newStatsDaemon (published : CString → StatisticsMap) : StatsDaemon :=
  ⟨⟨⟨0, .replace, .mac⟩, 5000⟩, .initial, published⟩

theorem newStatsDaemon_refreshes (published : CString → StatisticsMap) (now : ℕ) :
    (newStatsDaemon published).Refreshes now :=
  (StatsDaemon.refreshes_iff now).mpr fun _ => llongMin_le now

/-- The first call refreshes the columns, and the next one that does is five seconds later. -/
theorem refreshes_spaced_once :
    ∃ d, StatsRun d [⟨5000, 1000, 1003⟩] ∧ ∀ now, d.Refreshes now ↔ (6003 : ℤ) ≤ now := by
  have hfirst := newStatsDaemon_refreshes (fun _ _ => none) 1000
  obtain ⟨d, hrun, hcb, -⟩ := StatsDaemon.reconfigure_countedCall hfirst 1003
  have h := StatsRun.call (.start _ _) (countedCall 1000 1003) hrun
  rw [if_pos (by exact hfirst)] at h
  refine ⟨d, h, fun now => ((refreshes_spaced h).2 now).trans ?_⟩
  simp [hcb, newStatsDaemon, countedCall]

/-! ## The same counters again and again -/

/-- The calls of a daemon that find the same counters and the same rows, with the number of those
that refresh the columns. -/
inductive Repeats (s : State) (rows : List DhcpRelayRow) (d : StatsDaemon) : ℕ → StatsDaemon → Prop
  | start : Repeats s rows d 0 d
  | call {n : ℕ} {d₁ d₂ : StatsDaemon} (h : Repeats s rows d n d₁)
      (systemRow : Option SystemRow) (now later : ℕ)
      (hrun : d₁.reconfigure ⟨s, rows, systemRow, now, later⟩ = .ok d₂) :
      Repeats s rows d (if d₁.Refreshes now then n + 1 else n) d₂

section repeats

variable {s : State} {rows : List DhcpRelayRow} {d d' : StatsDaemon} {v : StatisticsVisit}
  {before after : List StatisticsVisit} {n : ℕ}

theorem Repeats.count_eq (h : Repeats s rows d n d') (hl : Linked s)
    (hvs : rows.filterMap (statisticsVisit s) = before ++ v :: after)
    (hlast : v.1 ∉ after.map Prod.fst) (hbefore : ∀ w ∈ before, ShowsCounters d.published w) :
    (d'.published v.1).count = (republish v.counts)^[n] (d.published v.1).count ∧
      ∀ w ∈ before, ShowsCounters d'.published w := by
  induction h with
  | start => exact ⟨rfl, hbefore⟩
  | @call n d₁ d₂ h systemRow now later hrun ih =>
    obtain ⟨hcount, hshown⟩ := ih
    rw [StatsDaemon.reconfigure_eq] at hrun
    -- a call that does not refresh leaves the columns, and does not count
    by_cases hrefreshes : d₁.Refreshes now
    · rw [if_pos hrefreshes] at hrun ⊢
      dsimp only at hrun
      rw [refreshDhcpRelayStats_eq hl, ok_bind] at hrun
      obtain ⟨hcolumn, hkept⟩ := refresh_count hvs
        (fun v hv w hw => statisticsVisit_eq_of_port hv hw) hlast hshown
      rw [← Except.ok.inj hrun, Function.iterate_succ_apply', ← hcount]
      exact ⟨hcolumn, hkept⟩
    · rw [if_neg hrefreshes] at hrun ⊢
      rw [← Except.ok.inj hrun]
      exact ⟨hcount, hshown⟩

/-- A column whose port has one row, after columns that are right: while the counters stay as they
are, it shows them from the second refresh on if those that are not zero were all right or all
wrong before the first one. Otherwise it never does: it shows those that were wrong after an odd
number of refreshes and those that were right after an even one, and 0 for the others. -/
theorem columns_of_repeats (hl : Linked s)
    (hvs : rows.filterMap (statisticsVisit s) = before ++ v :: after)
    (hlast : v.1 ∉ after.map Prod.fst) (hbefore : ∀ w ∈ before, ShowsCounters d.published w)
    (h : Repeats s rows d n d') :
    (Settles v.counts (d.published v.1).count → 2 ≤ n → ShowsCounters d'.published v) ∧
      (¬Settles v.counts (d.published v.1).count →
        ¬ShowsCounters d'.published v ∧ (0 < n → ∀ key, (d'.published v.1).count key =
          if (d.published v.1).count key = v.counts key ↔ Even n then v.counts key else 0)) := by
  obtain ⟨hcount, -⟩ := h.count_eq hl hvs hlast hbefore
  constructor
  · intro hsettles hn
    exact hcount.trans (iterate_republish_of_settles hsettles hn)
  · intro hnot
    constructor
    · intro hshows
      exact iterate_republish_ne hnot n (hcount.symm.trans hshows)
    · intro hn key
      rw [hcount, iterate_republish_of_not_settles hnot hn]

end repeats

/-- The dropped requests are published and the valid one is not: two refreshes later it is the same
again. -/
theorem columns_of_repeats_dropped :
    ∃ d', Repeats countedState [⟨some ['1'], some ['v'], none, []⟩]
        (newStatsDaemon fun _ key => if key = .droppedV4clientRequests then some 2 else none) 2 d' ∧
      (d'.published ['1']).count .validV4clientRequests = 0 ∧
      (d'.published ['1']).count .droppedV4clientRequests = 2 := by
  have hfirst := newStatsDaemon_refreshes
    (fun _ key => if key = .droppedV4clientRequests then some 2 else none) 1000
  obtain ⟨d₁, hrun₁, hcb, htimer⟩ := StatsDaemon.reconfigure_countedCall hfirst 1003
  have hsecond : d₁.Refreshes 7000 := by
    refine (StatsDaemon.refreshes_iff 7000).mpr fun _ => ?_
    rw [htimer]
    decide
  obtain ⟨d₂, hrun₂, -, -⟩ := StatsDaemon.reconfigure_countedCall hsecond 7002
  have h₁ := Repeats.call .start none 1000 1003 hrun₁
  rw [if_pos hfirst] at h₁
  have h₂ := Repeats.call h₁ none 7000 7002 hrun₂
  rw [if_pos hsecond] at h₂
  have hcolumns := (@columns_of_repeats _ _ _ _ (['1'], ⟨2, 1, 0, 0, 0, 0, 0, 0⟩) [] [] _
    linked_countedState (by rfl) (by simp) (by simp) h₂).2 ?_
  · refine ⟨d₂, h₂, ?_, ?_⟩
    · rw [hcolumns.2 (by decide)]
      decide
    · rw [hcolumns.2 (by decide)]
      decide
  · intro hsettles
    rcases hsettles with hright | hwrong
    · exact absurd (hright .droppedV4clientRequests (by decide)) (by decide)
    · exact absurd (hwrong .validV4clientRequests (by decide)) (by decide)

end Udpfwd
end IpApps
