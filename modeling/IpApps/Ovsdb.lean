import IpApps.Libc
import Mathlib.Logic.Function.Basic

/-!
# Writing the database

What the commands of the CLI share: the maps in the columns of a row, the transaction a
command writes in, and what it returns.
-/

namespace IpApps

/-- A `struct smap`, by what `smap_get` returns for each key. -/
abbrev SMap (κ : Type) := κ → Option CString

/-- The map without keys. -/
def SMap.empty {κ : Type} : SMap κ := fun _ => none

/-- `smap_replace`. -/
def smapReplace {κ : Type} [DecidableEq κ] (m : SMap κ) (key : κ) (value : CString) : SMap κ :=
  Function.update m key (some value)

/-- `smap_remove`. -/
def smapRemove {κ : Type} [DecidableEq κ] (m : SMap κ) (key : κ) : SMap κ :=
  Function.update m key none

@[simp]
theorem smapReplace_apply {κ : Type} [DecidableEq κ] (m : SMap κ) (key other : κ)
    (value : CString) :
    smapReplace m key value other = if other = key then some value else m other := by
  unfold smapReplace
  rw [Function.update_apply]

@[simp]
theorem smapRemove_apply {κ : Type} [DecidableEq κ] (m : SMap κ) (key other : κ) :
    smapRemove m key other = if other = key then none else m other := by
  unfold smapRemove
  rw [Function.update_apply]

/-- What a command returns. -/
inductive CmdResult
  /-- `CMD_SUCCESS`. -/
  | success
  /-- `CMD_OVSDB_FAILURE`. -/
  | ovsdbFailure
  deriving DecidableEq, Repr

/-- How the transaction of a command fares. -/
structure Txn where
  created : Bool
  /-- `TXN_SUCCESS` or `TXN_UNCHANGED`. -/
  committed : Bool

/-- A transaction that goes through. -/
def committedTxn : Txn := ⟨true, true⟩

end IpApps
