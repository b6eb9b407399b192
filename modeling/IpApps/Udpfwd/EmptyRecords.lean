import IpApps.Udpfwd.HandlerRuns

/-!
# Interface records without configuration

A node is freed when its last server is removed and it has no gateway. Nothing looks at a
node that never had a server: a row without an address leaves the node it was looked up
for, and a gateway that is cleared leaves the node it was set on.
-/

namespace IpApps
namespace Udpfwd

open ExceptLoops

/-! ## Reconfiguration -/

/-- The two tables at a call of `udpfwd_reconfigure`. -/
structure TableChanges where
  dhcpRelay : IdlTable DhcpRelayRow
  modified : DhcpRelayModified
  udpBcastForwarder : IdlTable UdpBcastForwarderRow

/-- `udpfwd_reconfigure`, but for the statistics and the global configuration, which do not
touch the cache. -/
def udpfwdReconfigure (s : State) (tables : TableChanges) : Except Fault State := do
  let s ← dhcpRelayServerConfigUpdate s tables.dhcpRelay tables.modified
  udpBcastForwarderServerConfigUpdate s tables.udpBcastForwarder

/-- The calls of an update function. -/
def tableCalls {α : Type} (table : IdlTable α) (rowDelete : List α → HandlerCall)
    (configChange : α → HandlerCall) : List HandlerCall :=
  let rows := table.rows.map (·.row)
  if table.rows.isEmpty then [rowDelete rows]
  else if !table.anyInserted && !table.anyDeleted && !table.anyModified then []
  else
    (if table.anyDeleted then [rowDelete rows] else []) ++
      (table.rows.filter fun rec => rec.inserted || rec.modified).map fun rec =>
        configChange rec.row

def TableChanges.calls (tables : TableChanges) : List HandlerCall :=
  tableCalls tables.dhcpRelay .dhcpRelayRowDelete
      (fun rec => .dhcpRelayConfigChange rec tables.modified) ++
    tableCalls tables.udpBcastForwarder .udpBcastForwarderRowDelete .udpBcastForwarderConfigChange

theorem foldlM_filter_eq {α : Type} (rows : List (IdlRow α)) (configChange : α → HandlerCall)
    (s : State) :
    rows.foldlM (fun s rec =>
        if rec.inserted || rec.modified then (configChange rec.row).apply s else pure s) s =
      ((rows.filter fun rec => rec.inserted || rec.modified).map fun rec =>
        configChange rec.row).foldlM HandlerCall.apply s := by
  induction rows generalizing s with
  | nil => rfl
  | cons rec rows ih =>
    rw [List.foldlM_cons]
    by_cases hflag : (rec.inserted || rec.modified) = true
    · simp only [List.filter_cons, hflag, if_true, List.map_cons, List.foldlM_cons]
      congr 1
      funext s'
      exact ih s'
    · simp only [List.filter_cons, hflag]
      exact ih s

theorem configUpdate_calls {α : Type} (table : IdlTable α) (rowDelete : List α → HandlerCall)
    (configChange : α → HandlerCall) (s : State) :
    configUpdate table (fun s rows => (rowDelete rows).apply s)
        (fun s rec => (configChange rec).apply s) s =
      (tableCalls table rowDelete configChange).foldlM HandlerCall.apply s := by
  unfold configUpdate tableCalls
  -- an empty table is one call of the row delete, a table without a flag none
  by_cases hempty : table.rows.isEmpty = true
  · simp only [hempty, if_true, List.foldlM_cons, List.foldlM_nil]
    exact (bind_pure _).symm
  · by_cases hflags : (!table.anyInserted && !table.anyDeleted && !table.anyModified) = true
    · simp only [hempty, hflags, if_true]
      rfl
    · simp only [hempty, hflags, Bool.false_eq_true, if_false, foldlM_filter_eq,
        List.foldlM_append]
      cases table.anyDeleted with
      | true =>
        simp only [if_true, List.foldlM_cons, List.foldlM_nil, bind_pure]
      | false => rfl

/-- A reconfiguration makes its calls one after the other. -/
theorem udpfwdReconfigure_eq (s : State) (tables : TableChanges) :
    udpfwdReconfigure s tables = tables.calls.foldlM HandlerCall.apply s := by
  unfold udpfwdReconfigure TableChanges.calls
  rw [List.foldlM_append]
  congr 1
  · exact configUpdate_calls tables.dhcpRelay .dhcpRelayRowDelete
      (fun rec => .dhcpRelayConfigChange rec tables.modified) s
  · funext s'
    exact configUpdate_calls tables.udpBcastForwarder .udpBcastForwarderRowDelete
      .udpBcastForwarderConfigChange s'

/-- Every call of the list meets the condition in the state in which it is made. -/
def CallsMeet (meets : State → HandlerCall → Prop) : State → List HandlerCall → Prop
  | _, [] => True
  | s, call :: calls =>
    meets s call ∧ ∀ s', call.apply s = .ok s' → CallsMeet meets s' calls

/-- The states of all runs of reconfigurations from the empty tables in which every call
meets the condition. -/
inductive Reconfigured (hashInt : UInt32 → UInt32 → UInt32)
    (meets : State → HandlerCall → Prop) : State → Prop
  | init : Reconfigured hashInt meets (State.empty hashInt)
  | step {s s' : State} (tables : TableChanges) : Reconfigured hashInt meets s →
      CallsMeet meets s tables.calls → udpfwdReconfigure s tables = .ok s' →
      Reconfigured hashInt meets s'

section runs

variable {hashInt : UInt32 → UInt32 → UInt32} {meets : State → HandlerCall → Prop}

theorem HandlerRun.calls {s s' : State} (calls : List HandlerCall)
    (h : HandlerRun hashInt meets s) (hmeet : CallsMeet meets s calls)
    (hrun : calls.foldlM HandlerCall.apply s = .ok s') : HandlerRun hashInt meets s' := by
  induction calls generalizing s with
  | nil =>
    obtain rfl : s = s' := Except.ok.inj hrun
    exact h
  | cons call calls ih =>
    rw [List.foldlM_cons] at hrun
    obtain ⟨s₁, happly, hrest⟩ := bind_eq_ok hrun
    exact ih (.step call h hmeet.1 happly) (hmeet.2 s₁ happly) hrest

/-- A run of reconfigurations is a run of handler calls. -/
theorem Reconfigured.handlerRun {s : State} (h : Reconfigured hashInt meets s) :
    HandlerRun hashInt meets s := by
  induction h with
  | init => exact .init
  | step tables _ hmeet hrun ih =>
    rw [udpfwdReconfigure_eq] at hrun
    exact ih.calls tables.calls hmeet hrun

end runs

/-! ## Records with a server or a gateway -/

/-- An interface node has a server or a gateway. -/
def HasRecord (v : Option UdpfwdInterfaceNode × List ServerKey) : Prop :=
  ∀ n, v.1 = some n → v.2 ≠ [] ∨ n.bootpGw ≠ 0

/-- No interface node is without configuration. -/
def NoEmptyRecord (s : State) : Prop := ∀ p, HasRecord (s.view p)

theorem noEmptyRecord_iff {s : State} (h : Linked s) :
    NoEmptyRecord s ↔ ∀ portName n ks, s.interface portName = some (n, ks) →
      ks ≠ [] ∨ n.bootpGw ≠ 0 := by
  constructor
  · intro hrec portName n ks hintf
    obtain ⟨p, -, hp, rfl⟩ := interface_eq_some hintf
    exact hrec p n hp
  · intro hrec p n hp
    exact hrec n.portName n (s.keysAt p) (interface_eq h hp)

/-- The row leaves a gateway, or the interface has servers, or there are addresses to store. -/
def RowEdit.KeepsRecord (s : State) (e : RowEdit) : Prop :=
  e.bootpGw ≠ 0 ∨ s.serversOf e.portName ≠ 0 ∨ e.addresses ≠ []

instance (s : State) (e : RowEdit) : Decidable (e.KeepsRecord s) :=
  inferInstanceAs (Decidable (_ ∨ _ ∨ _))

/-- A call leaves no empty record: its row keeps a record, and a deletion of `DHCP_Relay`
rows meets no interface that has a gateway only. -/
def HandlerCall.KeepsRecords (s : State) (call : HandlerCall) : Prop :=
  (∀ e, call.edit s = some e → e.KeepsRecord s) ∧
    ∀ rows, call = .dhcpRelayRowDelete rows → ∀ portName, s.interface portName ≠ none →
      ¬DhcpRelayPrefixRow rows portName → s.serversOf portName ≠ 0

section deletion

variable {s s' : State} {p : NodePtr} {n : UdpfwdInterfaceNode}

/-- Removing servers frees the node or leaves it a server or a gateway. -/
theorem removeServers_hasRecord (h : CacheInv s) (hp : s.nodes p = some n)
    {gone : List ServerKey} (hnonzero : ∀ k ∈ gone, k.1 ≠ 0)
    (hlen : gone.length ≤ (s.keysAt p).length) (hrun : removeServers p gone s = .ok s')
    (hrec : s.keysAt p ≠ [] ∨ n.bootpGw ≠ 0) : HasRecord (s'.view p) := by
  intro n' hp'
  -- a freed node leaves no record, one that stays has a server or a gateway left
  rcases removeServers_eq h hp hnonzero hlen with hfull | hfreed | hstays
  · rw [hfull.2] at hrun
    exact absurd hrun (by simp)
  · obtain ⟨-, -, s₁, hrun₁, -, hfrees⟩ := hfreed
    obtain rfl : s₁ = s' := Except.ok.inj (hrun₁.symm.trans hrun)
    exact absurd (hfrees.node.symm.trans hp') (by simp)
  · obtain ⟨-, hempty, s₁, hrun₁, -, htouch, hheld⟩ := hstays
    obtain rfl : s₁ = s' := Except.ok.inj (hrun₁.symm.trans hrun)
    obtain ⟨n₁, hp₁, -, hgw, -⟩ := htouch.node n hp
    obtain rfl : n₁ = n' := Option.some.inj (hp₁.symm.trans hp')
    by_contra hnot
    obtain ⟨hkeys, hgw₁⟩ := not_or.mp hnot
    have hleft : s.held p - gone = 0 := by
      rw [← hheld, held_eq_zero_iff]
      exact not_not.mp hkeys
    have hzero : n.bootpGw = 0 := hgw.symm.trans (not_not.mp hgw₁)
    have hsome : s.held p ≠ 0 := fun hcase => hrec.elim
      (fun hne => hne (held_eq_zero_iff.mp hcase)) fun hne => hne hzero
    exact hempty ⟨hzero, hsome, hleft⟩

/-- An entry of the table with a record. -/
def LiveRecord (e : CString × NodePtr) (v : Option UdpfwdInterfaceNode × List ServerKey) : Prop :=
  LiveEntry e v ∧ HasRecord v

/-- An entry of the table with a record, and with servers where no row is found. -/
def LiveServers (rows : List DhcpRelayRow) (e : CString × NodePtr)
    (v : Option UdpfwdInterfaceNode × List ServerKey) : Prop :=
  LiveEntry e v ∧ HasRecord v ∧ (¬DhcpRelayPrefixRow rows e.1 → v.2 ≠ [])

theorem dhcpRelayRowDeleteIntf_hasRecord (rows : List DhcpRelayRow) (s : State)
    (e : CString × NodePtr) (h : CacheInv s) (hgood : LiveServers rows e (s.view e.2))
    (hfits : ¬DhcpRelayOverrun rows e (s.view e.2)) :
    ∃ s', dhcpRelayRowDeleteIntf rows s e = .ok s' ∧ CacheInv s' ∧ HasRecord (s'.view e.2) ∧
      ∀ p, p ≠ e.2 → s'.view p = s.view p := by
  obtain ⟨hlive, hrec, hkeys⟩ := hgood
  obtain ⟨s', hrun, hinv, hlocal, hothers⟩ := dhcpRelayRowDeleteIntf_step rows s e h hlive hfits
  refine ⟨s', hrun, hinv, ?_, hothers⟩
  -- an interface without a row held a server, so its node goes if all its servers do
  by_cases hrow : DhcpRelayPrefixRow rows e.1
  · rw [hlocal.1 hrow]
    exact hrec
  · obtain ⟨⟨n, hp, -⟩, hnonzero⟩ := hlive
    obtain ⟨s₁, hinv₁, hp₁, hkeys₁, -, hrun₁⟩ := dhcpRelayRowDeleteIntf_orphan rows h hp hrow
    rw [hrun] at hrun₁
    refine removeServers_hasRecord hinv₁ hp₁ ?_ ?_ hrun₁.symm (Or.inl ?_)
    · exact fun k hk => hnonzero k (List.mem_of_mem_filter hk)
    · rw [hkeys₁]
      exact List.length_filter_le _ _
    · rw [hkeys₁]
      exact hkeys hrow

theorem udpBcastForwarderRowDeleteIntf_hasRecord (rows : List UdpBcastForwarderRow) (s : State)
    (e : CString × NodePtr) (h : CacheInv s) (hgood : LiveRecord e (s.view e.2))
    (hfits : ¬UdpBcastForwarderOverrun rows e (s.view e.2)) :
    ∃ s', udpBcastForwarderRowDeleteIntf rows s e = .ok s' ∧ CacheInv s' ∧
      HasRecord (s'.view e.2) ∧ ∀ p, p ≠ e.2 → s'.view p = s.view p := by
  obtain ⟨hlive, hrec⟩ := hgood
  obtain ⟨s', hrun, hinv, -, hothers⟩ :=
    udpBcastForwarderRowDeleteIntf_step rows s e h hlive hfits
  obtain ⟨⟨n, hp, hname⟩, hnonzero⟩ := hlive
  refine ⟨s', hrun, hinv, ?_, hothers⟩
  rw [udpBcastForwarderRowDeleteIntf_eq rows h hp hname] at hrun
  refine removeServers_hasRecord h hp ?_ (List.length_filter_le _ _) hrun (hrec n hp)
  exact fun k hk => hnonzero k (List.mem_of_mem_filter hk)

/-- The walk of a row-delete handler leaves a record at every node if each of its steps
does. -/
theorem walk_noEmptyRecord (c : Cache) {f : State → CString × NodePtr → Except Fault State}
    {good : CString × NodePtr → Option UdpfwdInterfaceNode × List ServerKey → Prop}
    {fails : CString × NodePtr → Option UdpfwdInterfaceNode × List ServerKey → Prop}
    (hstep : ∀ s e, CacheInv s → good e (s.view e.2) → ¬fails e (s.view e.2) →
      ∃ s', f s e = .ok s' ∧ CacheInv s' ∧ HasRecord (s'.view e.2) ∧
        ∀ p, p ≠ e.2 → s'.view p = s.view p)
    (hfail : ∀ s e, CacheInv s → good e (s.view e.2) → fails e (s.view e.2) →
      f s e = .error .scratchBounds)
    (hgood : ∀ e ∈ c.state.intfHashTable, good e (c.state.view e.2))
    (hrun : c.state.intfHashTable.foldlM f c.state = .ok s') : NoEmptyRecord s' := by
  have hnodup := c.inv.linked.table_pointers_nodup
  have hwalk := @foldlM_walk _ _ _ _ _ f Prod.snd State.view CacheInv good fails
    (fun _ _ v' => HasRecord v') hstep c.state.intfHashTable c.state hnodup c.inv hgood
  by_cases hover : ∃ e ∈ c.state.intfHashTable, fails e (c.state.view e.2)
  · have herror := @foldlM_walk_error _ _ _ _ _ f Prod.snd State.view CacheInv good fails
      (fun _ _ v' => HasRecord v') _ hstep hfail c.state.intfHashTable c.state hnodup c.inv hgood
      hover
    exact absurd (hrun.symm.trans herror) (by simp)
  · obtain ⟨s₁, hrun₁, -, hlocal, hothers⟩ := hwalk fun e he hcase => hover ⟨e, he, hcase⟩
    obtain rfl : s₁ = s' := Except.ok.inj (hrun₁.symm.trans hrun)
    intro p n hp
    by_cases hmem : p ∈ c.state.intfHashTable.map Prod.snd
    · obtain ⟨e, he, rfl⟩ := List.mem_map.mp hmem
      exact hlocal e he n hp
    · -- a node that is not in the table is not alive
      have hview := hothers p hmem
      rw [hview] at hp
      exact absurd (List.mem_map.mpr ⟨_, c.inv.linked.mem_table hp, rfl⟩) hmem

end deletion

section change

variable {c : Cache} {s' : State}

/-- With no server left there is room for the first address. -/
theorem storedServers_eq_nil {kept : Multiset ServerKey} {addresses : List CString}
    {listed : IpAddress → ServerKey → Bool} {udpPort : UInt16} (hkept : kept = 0)
    (hstored : storedServers kept addresses listed udpPort = []) :
    validAddresses addresses = [] := by
  subst hkept
  unfold storedServers newServers at hstored
  rw [Multiset.card_zero, Nat.sub_zero, List.take_eq_nil_iff] at hstored
  have hmap := hstored.resolve_left (by decide)
  rw [List.map_eq_nil_iff, List.filter_eq_nil_iff] at hmap
  rw [List.eq_nil_iff_forall_not_mem]
  intro id hid
  exact hmap id hid (by simp)

theorem HandlerCall.edit_addresses {s : State} {call : HandlerCall} {e : RowEdit}
    (hedit : call.edit s = some e) (hkept : e.kept = 0) (hstored : e.stored = []) :
    e.addresses = [] := by
  rcases HandlerCall.edit_cases hedit with hrelay | hforwarder
  · obtain ⟨rec, modified, portName, vrf, -, -, -, rfl⟩ := hrelay
    unfold dhcpRelayEdit at hkept hstored ⊢
    cases hmodified : modified.ipv4UcastServer with
    | true =>
      simp only [hmodified, if_true] at hkept hstored ⊢
      exact storedServers_eq_nil hkept hstored
    | false => rfl
  · obtain ⟨rec, portName, vrf, -, -, -, rfl⟩ := hforwarder
    exact storedServers_eq_nil hkept hstored

/-- An edit that keeps a record leaves no empty one. -/
theorem Edited.noEmptyRecord {e : RowEdit} (h : Edited c.state s' e)
    (hrec : NoEmptyRecord c.state) (hkeeps : e.KeepsRecord c.state)
    (haddr : e.kept = 0 → e.stored = [] → e.addresses = []) : NoEmptyRecord s' := by
  rw [noEmptyRecord_iff c.inv.linked] at hrec
  rw [noEmptyRecord_iff h.linked]
  intro portName n ks hintf
  by_cases hname : portName = e.portName
  · subst hname
    obtain ⟨hgw, hempty⟩ := h.node n ks hintf
    by_contra hnot
    obtain ⟨hks, hzero⟩ := not_or.mp hnot
    have hgw₀ : e.bootpGw = 0 := hgw.symm.trans (not_not.mp hzero)
    have hservers := h.servers
    have hnone : s'.serversOf e.portName = 0 := by
      unfold State.serversOf
      rw [hintf, not_not.mp hks]
      rfl
    rw [hnone, eq_comm, add_eq_zero] at hservers
    obtain ⟨hkept, hstored⟩ := hservers
    have hheld : c.state.serversOf e.portName = 0 := by
      by_contra hne
      exact hempty ⟨hgw₀, hne, hkept⟩
    rcases hkeeps with hcase | hcase | hcase
    · exact hcase hgw₀
    · exact hcase hheld
    · exact hcase (haddr hkept (Multiset.coe_eq_zero _ |>.mp hstored))
  · rw [h.frame portName hname] at hintf
    exact hrec portName n ks hintf

/-- A call that keeps records leaves no empty one. -/
theorem HandlerCall.noEmptyRecord {call : HandlerCall} (hrec : NoEmptyRecord c.state)
    (hkeeps : call.KeepsRecords c.state) (hrun : call.apply c.state = .ok s') :
    NoEmptyRecord s' := by
  have hl := c.inv.linked
  cases call with
  | dhcpRelayRowDelete rows =>
    refine walk_noEmptyRecord c (dhcpRelayRowDeleteIntf_hasRecord rows)
      (fun s e h hgood => dhcpRelayRowDeleteIntf_overrun rows s e h hgood.1) ?_ hrun
    intro e he
    refine ⟨c.liveEntry e he, hrec e.2, fun hrow hkeys => ?_⟩
    have hintf : c.state.interface e.1 ≠ none :=
      hl.mem_names_iff.mp (List.mem_map.mpr ⟨e, he, rfl⟩)
    apply hkeeps.2 rows rfl e.1 hintf hrow
    rw [hl.serversOf_eq_held he]
    exact held_eq_zero_iff.mpr hkeys
  | udpBcastForwarderRowDelete rows =>
    refine walk_noEmptyRecord c (udpBcastForwarderRowDeleteIntf_hasRecord rows)
      (fun s e h hgood => udpBcastForwarderRowDeleteIntf_overrun rows s e h hgood.1) ?_ hrun
    exact fun e he => ⟨c.liveEntry e he, hrec e.2⟩
  | dhcpRelayConfigChange rec modified =>
    cases HandlerCall.outcome hrun with
    | edited e hedit h =>
      exact h.noEmptyRecord hrec (hkeeps.1 e hedit) (HandlerCall.edit_addresses hedit)
    | unchanged _ hsame => exact hsame ▸ hrec
    | deleted hdeletes _ _ => exact hdeletes.elim
  | udpBcastForwarderConfigChange rec =>
    cases HandlerCall.outcome hrun with
    | edited e hedit h =>
      exact h.noEmptyRecord hrec (hkeeps.1 e hedit) (HandlerCall.edit_addresses hedit)
    | unchanged _ hsame => exact hsame ▸ hrec
    | deleted hdeletes _ _ => exact hdeletes.elim

/-- In every state of a run of reconfigurations whose calls keep records, every interface
node has a server or a gateway. -/
theorem reconfigured_no_empty_record {hashInt : UInt32 → UInt32 → UInt32} {s : State}
    (h : Reconfigured hashInt (fun s call => call.CountsFit s ∧ call.KeepsRecords s) s) :
    ∀ e ∈ s.intfHashTable, ∃ n, s.nodes e.2 = some n ∧ (0 < n.addrCount ∨ n.bootpGw ≠ 0) := by
  have hempty : NoEmptyRecord (State.empty hashInt) :=
    fun p n hp => absurd hp (by simp [State.view, State.empty])
  have hstep : ∀ (c : Cache) (call : HandlerCall) s', NoEmptyRecord c.state →
      call.CountsFit c.state ∧ call.KeepsRecords c.state → call.apply c.state = .ok s' →
      NoEmptyRecord s' :=
    fun c call s' hrec hmeets hrun => HandlerCall.noEmptyRecord hrec hmeets.2 hrun
  obtain ⟨⟨c, rfl⟩, hrec⟩ := h.handlerRun.invariant (fun _ _ hmeets => hmeets.1) hempty hstep
  intro e he
  obtain ⟨n, hp, -⟩ := (c.inv.linked.listed e.1 e.2).mp he
  refine ⟨n, hp, (hrec e.2 n hp).imp_left fun hkeys => ?_⟩
  rw [c.inv.linked.addrCount_eq hp]
  exact List.length_pos_iff.mpr hkeys

/-- A row with one helper is inserted. -/
def helperInserted : TableChanges where
  dhcpRelay := ⟨[⟨⟨some ['1'], some ['v'], none, ["10.0.0.1".toList]⟩, true, false⟩], true, false,
    false⟩
  modified := ⟨true, true⟩
  udpBcastForwarder := ⟨[], false, false, false⟩

theorem reconfigured_no_empty_record_helper :
    ∃ s, Reconfigured (fun a port => a ^^^ port)
        (fun s call => call.CountsFit s ∧ call.KeepsRecords s) s ∧
      s.keysAt 0 = [(0x0100000a, 67)] ∧
      ∀ e ∈ s.intfHashTable, ∃ n, s.nodes e.2 = some n ∧ (0 < n.addrCount ∨ n.bootpGw ≠ 0) := by
  have hmeet : CallsMeet (fun s call => call.CountsFit s ∧ call.KeepsRecords s)
      (State.empty fun a port => a ^^^ port) helperInserted.calls := by
    refine ⟨⟨?_, ?_, ?_⟩, fun s' _ => ⟨⟨?_, ?_, ?_⟩, fun _ _ => trivial⟩⟩
    · intro e hedit
      obtain rfl := Option.some.inj hedit
      decide
    · intro e hedit
      obtain rfl := Option.some.inj hedit
      decide
    · intro rows hrows
      exact absurd hrows (by simp)
    · intro e hedit
      exact absurd hedit (by simp [HandlerCall.edit])
    · intro e hedit
      exact absurd hedit (by simp [HandlerCall.edit])
    · intro rows hrows
      exact absurd hrows (by simp)
  have hrun := Reconfigured.step helperInserted .init hmeet rfl
  exact ⟨_, hrun, by decide, reconfigured_no_empty_record hrun⟩

/-- The row of interface `1` has a gateway only, and is deleted. -/
theorem gateway_row_leaves_record :
    ∃ s₁ s₂, udpfwdReconfigure (State.empty fun a port => a ^^^ port)
        ⟨⟨[⟨⟨some ['1'], some ['v'], some "9.0.0.1".toList, []⟩, true, false⟩], true, false, false⟩,
          ⟨true, true⟩, ⟨[], false, false, false⟩⟩ = .ok s₁ ∧
      udpfwdReconfigure s₁ ⟨⟨[], false, true, false⟩, ⟨false, false⟩, ⟨[], false, false, false⟩⟩
        = .ok s₂ ∧
      ¬∀ e ∈ s₂.intfHashTable, ∃ n, s₂.nodes e.2 = some n ∧ (0 < n.addrCount ∨ n.bootpGw ≠ 0) := by
  refine ⟨_, _, rfl, rfl, fun hall => ?_⟩
  obtain ⟨n, hp, hrec⟩ := hall (['1'], 0) (by decide)
  obtain rfl : (⟨['1'], 0, none, 0, {}⟩ : UdpfwdInterfaceNode) = n := Option.some.inj hp
  exact absurd hrec (by decide)

end change

end Udpfwd
end IpApps
