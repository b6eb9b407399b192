import IpApps.Udpfwd.Configuration
import IpApps.Udpfwd.EmptyRecords

/-!
# What the database reports

The daemon is told which rows and columns have changed since it last looked, with flags that may
be set for nothing. A row is known again by its key as long as it has not been deleted.
-/

namespace IpApps
namespace Udpfwd

open Vty Vty.ServerRow

/-! ## Reports -/

section reports

variable {α ι : Type} [ServerRow α ι]

/-- A report about a table. The rows with the keys `survives` have not been deleted since the
table was `old`. -/
structure Reports (old : List α) (survives : RowKey ι → Prop) (table : IdlTable α) : Prop where
  survivor : ∀ r ∈ table.rows, survives (rowKey r.row) →
    ∃ row ∈ old, rowKey row = rowKey r.row ∧ (r.modified = false → rowValue row = rowValue r.row)
  fresh : ∀ r ∈ table.rows, ¬survives (rowKey r.row) → r.inserted = true
  present : ∀ key, survives key → ∃ r ∈ table.rows, rowKey r.row = key
  anyInserted : ∀ r ∈ table.rows, r.inserted = true → table.anyInserted = true
  anyModified : ∀ r ∈ table.rows, r.modified = true → table.anyModified = true
  anyDeleted : ∀ row ∈ old, ¬survives (rowKey row) → table.anyDeleted = true

/-- A report about a column: without the flag, rows have the value they had, and new ones the
default. -/
structure ReportsColumn {β : Type} (value : α → β) (default : β) (old : List α)
    (survives : RowKey ι → Prop) (table : IdlTable α) (flag : Bool) : Prop where
  survivor : flag = false → ∀ r ∈ table.rows, survives (rowKey r.row) →
    ∀ row ∈ old, rowKey row = rowKey r.row → value row = value r.row
  fresh : flag = false → ∀ r ∈ table.rows, ¬survives (rowKey r.row) → value r.row = default

/-- The rows of a table as they are now. -/
def IdlTable.current (table : IdlTable α) : List α := table.rows.map (·.row)

/-- The rows a call visits. -/
def IdlTable.changed (table : IdlTable α) : List α :=
  (table.rows.filter fun r => r.inserted || r.modified).map (·.row)

/-- Whether a call looks for servers without a row. -/
def IdlTable.looksForOrphans (table : IdlTable α) : Bool :=
  table.rows.isEmpty || table.anyDeleted

theorem mem_changed {table : IdlTable α} {row : α} :
    row ∈ table.changed ↔ ∃ r ∈ table.rows, (r.inserted || r.modified) = true ∧ r.row = row := by
  unfold IdlTable.changed
  simp only [List.mem_map, List.mem_filter, and_assoc]

theorem current_of_changed {table : IdlTable α} {row : α} (h : row ∈ table.changed) :
    row ∈ table.current := by
  obtain ⟨r, hr, _, rfl⟩ := mem_changed.mp h
  exact List.mem_map_of_mem hr

variable {old : List α} {survives : RowKey ι → Prop} {table : IdlTable α}
  {defaultVrfName : CString} {before after : Entries ι} {name : CString} {i : ι}

/-- The calls of an update function are the search for servers without a row and a visit of each
changed row. -/
theorem Reports.calls_eq (h : Reports old survives table) (rowDelete : List α → HandlerCall)
    (configChange : α → HandlerCall) :
    tableCalls table rowDelete configChange =
      (if table.looksForOrphans then [rowDelete table.current] else []) ++
        table.changed.map configChange := by
  unfold tableCalls IdlTable.looksForOrphans IdlTable.current IdlTable.changed
  by_cases hempty : table.rows.isEmpty = true
  · rw [List.isEmpty_iff.mp hempty]
    rfl
  · rw [Bool.not_eq_true] at hempty
    simp only [hempty, Bool.false_eq_true, if_false, Bool.false_or]
    by_cases hflags : (!table.anyInserted && !table.anyDeleted && !table.anyModified) = true
    · -- no row is visited without the flag of its table
      rw [if_pos hflags]
      simp only [Bool.and_eq_true, Bool.not_eq_true'] at hflags
      have hnone : (table.rows.filter fun r => r.inserted || r.modified) = [] := by
        rw [List.filter_eq_nil_iff]
        intro r hr hflag
        rcases Bool.or_eq_true_iff.mp hflag with hins | hmod
        · exact absurd (h.anyInserted r hr hins) (by simp [hflags.1.1])
        · exact absurd (h.anyModified r hr hmod) (by simp [hflags.2])
      rw [hflags.1.2, hnone]
      rfl
    · rw [if_neg hflags, List.map_map]
      rfl

/-! ## Reports and entries -/

/-- A row for each entry. -/
theorem entry_ne_iff (h : TableInv defaultVrfName table.current after) :
    after (name, i) ≠ (∅, none) ↔
      ∃ r ∈ table.rows, rowKey r.row = interfaceKey defaultVrfName name i := by
  constructor
  · intro hne
    obtain ⟨row, hrow, hkey⟩ := h.exists_row hne
    obtain ⟨r, hr, rfl⟩ := List.mem_map.mp hrow
    exact ⟨r, hr, hkey⟩
  · rintro ⟨r, hr, hkey⟩
    exact h.entry_ne (List.mem_map_of_mem hr) hkey

/-- Where nothing was looked for, no entry was deleted. -/
theorem Reports.entry_kept (h : Reports old survives table)
    (hold : TableInv defaultVrfName old before) (hnew : TableInv defaultVrfName table.current after)
    (hquiet : table.looksForOrphans = false) (hne : before (name, i) ≠ (∅, none)) :
    after (name, i) ≠ (∅, none) := by
  obtain ⟨row, hrow, hkey⟩ := hold.exists_row hne
  have hsurvives : survives (rowKey row) := by
    by_contra hnot
    have hdeleted := h.anyDeleted row hrow hnot
    unfold IdlTable.looksForOrphans at hquiet
    rw [hdeleted, Bool.or_true] at hquiet
    exact absurd hquiet (by simp)
  obtain ⟨r, hr, hkey'⟩ := h.present _ hsurvives
  exact (entry_ne_iff hnew).mpr ⟨r, hr, hkey'.trans hkey⟩

/-- A row that is not visited has its old entry. -/
theorem Reports.entry_eq (h : Reports old survives table)
    (hold : TableInv defaultVrfName old before) (hnew : TableInv defaultVrfName table.current after)
    {r : IdlRow α} (hr : r ∈ table.rows)
    (hkey : rowKey r.row = interfaceKey defaultVrfName name i) (hnot : r.row ∉ table.changed) :
    before (name, i) = after (name, i) := by
  have hflags : (r.inserted || r.modified) = false := by
    rw [← Bool.not_eq_true]
    exact fun hflag => hnot (mem_changed.mpr ⟨r, hr, hflag, rfl⟩)
  rw [Bool.or_eq_false_iff] at hflags
  have hsurvives : survives (rowKey r.row) := by
    by_contra hfresh
    rw [h.fresh r hr hfresh] at hflags
    exact absurd hflags.1 (by simp)
  obtain ⟨row, hrow, hsame, hvalue⟩ := h.survivor r hr hsurvives
  have hbefore := hold.holds.value_of_key hrow (hsame.trans hkey)
  have hafter := hnew.holds.value_of_key (List.mem_map_of_mem hr) hkey
  rw [hvalue hflags.2, hafter, Prod.mk.injEq, Finset.val_inj] at hbefore
  exact Prod.ext hbefore.1.symm hbefore.2.symm

/-- The keys of the rows that are visited are different ones. -/
theorem nodup_changed (h : TableInv defaultVrfName table.current after) :
    (table.changed.map rowKey).Nodup := by
  have hsub : (table.changed.map rowKey).Sublist (table.current.map rowKey) :=
    (List.filter_sublist.map _).map _
  exact h.holds.nodup.sublist hsub

end reports

/-! ## The columns of the relay table -/

section columns

variable {old : List DhcpRelayRow} {survives : RowKey Unit → Prop}
  {table : IdlTable DhcpRelayRow} {flag : Bool} {defaultVrfName : CString}
  {before after : Entries Unit} {name : CString} {r : IdlRow DhcpRelayRow}

/-- The addresses of a row, in any order. -/
def helpers (row : DhcpRelayRow) : Multiset CString := row.ipv4UcastServer

/-- What a report without the flag of a column says about the value of a row in the column. -/
theorem ReportsColumn.cases {β : Type} {value : DhcpRelayRow → β} {default : β}
    (h : ReportsColumn value default old survives table flag)
    (hreports : Reports old survives table)
    (hflag : flag = false) (hr : r ∈ table.rows) :
    (∃ row ∈ old, rowKey row = rowKey r.row ∧ value row = value r.row) ∨
      (¬survives (rowKey r.row) ∧ value r.row = default) := by
  by_cases hsurvives : survives (rowKey r.row)
  · obtain ⟨row, hrow, hsame, _⟩ := hreports.survivor r hr hsurvives
    exact Or.inl ⟨row, hrow, hsame, h.survivor hflag r hr hsurvives row hrow hsame⟩
  · exact Or.inr ⟨hsurvives, h.fresh hflag r hr hsurvives⟩

/-- Without the flag an interface has the helper addresses it had, unless its row is a new one
in the place of another. -/
theorem ReportsColumn.helpers_eq
    (h : ReportsColumn helpers 0 old survives table flag) (hreports : Reports old survives table)
    (hold : TableInv defaultVrfName old before) (hnew : TableInv defaultVrfName table.current after)
    (hrecreated : ¬survives (interfaceKey defaultVrfName name ()) →
      (before (name, ())).1 ≠ ∅ → (after (name, ())).1 ≠ ∅)
    (hflag : flag = false) (hr : r ∈ table.rows)
    (hkey : rowKey r.row = interfaceKey defaultVrfName name ()) :
    (before (name, ())).1 = (after (name, ())).1 := by
  have hafter : helpers r.row = (after (name, ())).1.val :=
    (Prod.mk.inj (hnew.holds.value_of_key (List.mem_map_of_mem hr) hkey)).1
  rcases h.cases hreports hflag hr with ⟨row, hrow, hsame, hvalue⟩ | ⟨hfresh, hzero⟩
  · have hbefore : helpers row = (before (name, ())).1.val :=
      (Prod.mk.inj (hold.holds.value_of_key hrow (hsame.trans hkey))).1
    rw [hvalue, hafter, Finset.val_inj] at hbefore
    exact hbefore.symm
  · rw [hzero, eq_comm, Finset.val_eq_zero] at hafter
    rw [hkey] at hfresh
    rw [hafter]
    by_contra hne
    exact hrecreated hfresh hne hafter

/-- The same for the gateway. -/
theorem ReportsColumn.gateway_eq
    (h : ReportsColumn DhcpRelayRow.bootpGateway none old survives table flag)
    (hreports : Reports old survives table)
    (hold : TableInv defaultVrfName old before) (hnew : TableInv defaultVrfName table.current after)
    (hrecreated : ¬survives (interfaceKey defaultVrfName name ()) →
      (before (name, ())).2 ≠ none → (after (name, ())).2 ≠ none)
    (hflag : flag = false) (hr : r ∈ table.rows)
    (hkey : rowKey r.row = interfaceKey defaultVrfName name ()) :
    (before (name, ())).2 = (after (name, ())).2 := by
  have hafter : r.row.bootpGateway = (after (name, ())).2 :=
    (Prod.mk.inj (hnew.holds.value_of_key (List.mem_map_of_mem hr) hkey)).2
  rcases h.cases hreports hflag hr with ⟨row, hrow, hsame, hvalue⟩ | ⟨hfresh, hnone⟩
  · have hbefore : row.bootpGateway = (before (name, ())).2 :=
      (Prod.mk.inj (hold.holds.value_of_key hrow (hsame.trans hkey))).2
    rw [← hbefore, hvalue, hafter]
  · rw [hnone] at hafter
    rw [hkey] at hfresh
    rw [← hafter]
    by_contra hne
    exact hrecreated hfresh hne hafter.symm

end columns

end Udpfwd
end IpApps
