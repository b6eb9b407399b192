import Mathlib.Algebra.GroupWithZero.Nat
import Mathlib.Data.List.Nodup
import Mathlib.Data.List.Perm.Basic
import Mathlib.Logic.Function.Basic

/-!
# Tables of rows with a key

A list of rows, each with a key and a value, stands for a function from keys to values: a key
without a row has the default value. The order of the rows makes no difference, and the function
determines the rows.
-/

namespace IpApps
namespace KeyedTable

variable {α κ β : Type*} (key : α → κ) (val : α → β) (e : β)

/-- The tables have the same rows in some order, as far as key and value tell. -/
def SameRows (rows rows' : List α) : Prop :=
  (rows.map fun row => (key row, val row)).Perm (rows'.map fun row => (key row, val row))

/-- The table stands for the function: no key has two rows, and the rows are those of the keys
with another value than the default. -/
structure Represents (rows : List α) (f : κ → β) : Prop where
  nodup : (rows.map key).Nodup
  mem_iff : ∀ k b, (k, b) ∈ rows.map (fun row => (key row, val row)) ↔ f k = b ∧ b ≠ e

/-- The sum of a weight over the rows. -/
def total (w : κ × β → ℕ) (rows : List α) : ℕ :=
  (rows.map fun row => w (key row, val row)).sum

/-- An edit gives a key another value: a row is added, changed or taken away. -/
inductive Edits (rows : List α) (k : κ) : β → β → List α → Prop
  | append {row : α} (hfree : ∀ other ∈ rows, key other ≠ k) (hkey : key row = k)
      (hval : val row ≠ e) : Edits rows k e (val row) (rows ++ [row])
  | set (i : Fin rows.length) {row : α} (hold : key rows[i] = k) (hkey : key row = k)
      (hval : val row ≠ e) : Edits rows k (val rows[i]) (val row) (rows.set i row)
  | eraseIdx (i : Fin rows.length) (hold : key rows[i] = k) :
      Edits rows k (val rows[i]) e (rows.eraseIdx i)

section

variable {key val e} {rows rows' : List α} {f : κ → β} {row : α}

theorem SameRows.symm (h : SameRows key val rows rows') : SameRows key val rows' rows :=
  List.Perm.symm h

theorem SameRows.trans {rows'' : List α} (h : SameRows key val rows rows')
    (h' : SameRows key val rows' rows'') : SameRows key val rows rows'' :=
  List.Perm.trans h h'

theorem SameRows.of_perm (h : rows.Perm rows') : SameRows key val rows rows' := h.map _

theorem SameRows.total_eq (h : SameRows key val rows rows') (w : κ × β → ℕ) :
    total key val w rows = total key val w rows' := by
  have hsum := (List.Perm.map w h).sum_nat
  rw [List.map_map, List.map_map] at hsum
  exact hsum

/-- What a table stands for does not depend on its order. -/
theorem SameRows.represents (h : SameRows key val rows rows')
    (hrows : Represents key val e rows f) : Represents key val e rows' f := by
  constructor
  · have hkeys := List.Perm.map Prod.fst h
    rw [List.map_map, List.map_map] at hkeys
    exact hkeys.nodup_iff.mp hrows.nodup
  · intro k b
    rw [← hrows.mem_iff, List.Perm.mem_iff h]

theorem represents_nil : Represents key val e [] fun _ => e := by
  refine ⟨List.nodup_nil, fun k b => ?_⟩
  rw [List.map_nil, List.mem_nil_iff, false_iff]
  rintro ⟨heq, hne⟩
  exact hne heq.symm

namespace Represents

theorem value (h : Represents key val e rows f) (hrow : row ∈ rows) :
    f (key row) = val row ∧ val row ≠ e :=
  (h.mem_iff _ _).mp (List.mem_map.mpr ⟨row, hrow, rfl⟩)

theorem exists_row (h : Represents key val e rows f) {k : κ} (hk : f k ≠ e) :
    ∃ row ∈ rows, key row = k ∧ val row = f k := by
  have ⟨row, hrow, heq⟩ := List.mem_map.mp ((h.mem_iff k (f k)).mpr ⟨rfl, hk⟩)
  exact ⟨row, hrow, Prod.mk.inj heq⟩

/-- A key without a row has the default value. -/
theorem eq_default (h : Represents key val e rows f) {k : κ} (hk : ∀ row ∈ rows, key row ≠ k) :
    f k = e := by
  by_contra hne
  have ⟨row, hrow, heq, _⟩ := h.exists_row hne
  exact hk row hrow heq

/-- The function determines the rows. -/
theorem sameRows (h : Represents key val e rows f) (h' : Represents key val e rows' f) :
    SameRows key val rows rows' := by
  have hnodup : ∀ {rows : List α}, Represents key val e rows f →
      (rows.map fun row => (key row, val row)).Nodup := by
    intro rows h
    refine List.Nodup.of_map Prod.fst ?_
    rw [List.map_map]
    exact h.nodup
  refine (List.perm_ext_iff_of_nodup (hnodup h) (hnodup h')).mpr ?_
  rintro ⟨k, b⟩
  rw [h.mem_iff, h'.mem_iff]

/-- A table begins with any of its rows. -/
theorem getElem_cons (h : Represents key val e rows f) (i : Fin rows.length) :
    Represents key val e (rows[i] :: rows.eraseIdx i) f :=
  (SameRows.of_perm (List.getElem_cons_eraseIdx_perm i.isLt).symm).represents h

variable [DecidableEq κ]

/-- The first row of a table gives the value of its key, the others those of the other keys. -/
theorem cons_iff :
    Represents key val e (row :: rows) f ↔
      val row ≠ e ∧ f (key row) = val row ∧
        Represents key val e rows (Function.update f (key row) e) := by
  constructor
  · intro h
    have hnodup := List.nodup_cons.mp h.nodup
    have hrow := h.value List.mem_cons_self
    refine ⟨hrow.2, hrow.1, hnodup.2, fun k b => ?_⟩
    by_cases hk : k = key row
    · rw [hk, Function.update_self]
      refine iff_of_false (fun hmem => hnodup.1 ?_) (fun hb => hb.2 hb.1.symm)
      have ⟨other, hother, heq⟩ := List.mem_map.mp hmem
      exact List.mem_map.mpr ⟨other, hother, (Prod.mk.inj heq).1⟩
    · rw [Function.update_of_ne hk, ← h.mem_iff, List.map_cons, List.mem_cons]
      exact (or_iff_right fun heq => hk (Prod.mk.inj heq).1).symm
  · rintro ⟨hne, hf, h⟩
    have hkey : ∀ b, (key row, b) ∉ rows.map (fun row => (key row, val row)) := by
      intro b hmem
      have hb := (h.mem_iff _ _).mp hmem
      rw [Function.update_self] at hb
      exact hb.2 hb.1.symm
    constructor
    · refine List.nodup_cons.mpr ⟨fun hmem => ?_, h.nodup⟩
      have ⟨other, hother, heq⟩ := List.mem_map.mp hmem
      exact hkey (val other) (List.mem_map.mpr ⟨other, hother, by rw [heq]⟩)
    · intro k b
      rw [List.map_cons, List.mem_cons]
      by_cases hk : k = key row
      · rw [hk, hf, or_iff_left (hkey b), Prod.mk.injEq]
        constructor
        · rintro ⟨_, hb⟩
          exact ⟨hb.symm, hb ▸ hne⟩
        · rintro ⟨hb, _⟩
          exact ⟨rfl, hb.symm⟩
      · rw [or_iff_right fun heq => hk (Prod.mk.inj heq).1, h.mem_iff, Function.update_of_ne hk]

/-- A row is added for a key that has none. -/
theorem append (h : Represents key val e rows f) (hkey : ∀ other ∈ rows, key other ≠ key row)
    (hval : val row ≠ e) :
    Represents key val e (rows ++ [row]) (Function.update f (key row) (val row)) := by
  have hrest : Function.update (Function.update f (key row) (val row)) (key row) e = f := by
    rw [Function.update_idem, Function.update_eq_self_iff]
    exact (h.eq_default hkey).symm
  refine (SameRows.of_perm (List.perm_append_singleton row rows).symm).represents
    (cons_iff.mpr ⟨hval, Function.update_self .., ?_⟩)
  rw [hrest]
  exact h

/-- A row is taken away. -/
theorem eraseIdx (h : Represents key val e rows f) (i : Fin rows.length) :
    Represents key val e (rows.eraseIdx i) (Function.update f (key rows[i]) e) :=
  (cons_iff.mp (h.getElem_cons i)).2.2

/-- A row is changed, but for its key. -/
theorem set (h : Represents key val e rows f) (i : Fin rows.length)
    (hkey : key row = key rows[i]) (hval : val row ≠ e) :
    Represents key val e (rows.set i row) (Function.update f (key rows[i]) (val row)) := by
  refine (SameRows.of_perm (List.set_perm_cons_eraseIdx i.isLt row).symm).represents
    (cons_iff.mpr ⟨hval, ?_, ?_⟩)
  · rw [hkey, Function.update_self]
  · rw [hkey, Function.update_idem]
    exact h.eraseIdx i

/-- An edit changes the function at its key. -/
theorem edits (h : Represents key val e rows f) {k : κ} {b b' : β}
    (hedits : Edits key val e rows k b b' rows') :
    f k = b ∧ Represents key val e rows' (Function.update f k b') := by
  cases hedits with
  | append hfree hkey hval =>
    refine ⟨h.eq_default hfree, ?_⟩
    rw [← hkey]
    exact h.append (fun other hother => hkey ▸ hfree other hother) hval
  | set i hold hkey hval =>
    rw [← hold]
    exact ⟨(h.value (List.getElem_mem _)).1, h.set i (hkey.trans hold.symm) hval⟩
  | eraseIdx i hold =>
    rw [← hold]
    exact ⟨(h.value (List.getElem_mem _)).1, h.eraseIdx i⟩

end Represents

/-! ## Totals -/

theorem total_append (w : κ × β → ℕ) :
    total key val w (rows ++ [row]) = total key val w rows + w (key row, val row) := by
  simp [total]

theorem total_eraseIdx (w : κ × β → ℕ) (i : Fin rows.length) :
    total key val w (rows.eraseIdx i) + w (key rows[i], val rows[i]) = total key val w rows := by
  rw [← (SameRows.of_perm (List.getElem_cons_eraseIdx_perm i.isLt)).total_eq w]
  simp [total, Nat.add_comm]

theorem total_set (w : κ × β → ℕ) (i : Fin rows.length) :
    total key val w (rows.set i row) + w (key rows[i], val rows[i])
      = total key val w rows + w (key row, val row) := by
  have hperm := List.set_perm_cons_eraseIdx i.isLt row
  have hset : total key val w (rows.set i row)
      = w (key row, val row) + total key val w (rows.eraseIdx i) := by
    rw [(SameRows.of_perm hperm).total_eq w]
    simp [total]
  have herase : total key val w (rows.eraseIdx i) + w (key rows[i], val rows[i])
      = total key val w rows := total_eraseIdx w i
  omega

/-- A total changes with the weight of the edited key. -/
theorem Edits.total_eq {k : κ} {b b' : β} (h : Edits key val e rows k b b' rows')
    (w : κ × β → ℕ) (hdefault : w (k, e) = 0) :
    total key val w rows' + w (k, b) = total key val w rows + w (k, b') := by
  cases h with
  | append hfree hkey hval => rw [total_append, hkey, hdefault, Nat.add_zero]
  | @set i row hold hkey hval =>
    rw [← hold, total_set, hkey, hold]
  | eraseIdx i hold => rw [← hold, total_eraseIdx, hold, hdefault, Nat.add_zero]

end

end KeyedTable
end IpApps
