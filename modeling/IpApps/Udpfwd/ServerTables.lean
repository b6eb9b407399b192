import IpApps.Lib.KeyedTable
import IpApps.Udpfwd.ServerCommands
import Mathlib.Data.Finset.Basic

/-!
# What the server tables stand for

For each interface, and in the forwarder table for each UDP port, a set of server addresses and
maybe a gateway. `Holds` says that a table has the rows for them and no others; the commands
edit a table in a few ways, and each is an operation on the sets.
-/

namespace IpApps
namespace Udpfwd
namespace Vty

open KeyedTable

/-! ## The rows of both tables -/

/-- The columns of a row of either table. An index tells the rows of an interface apart. -/
class ServerRow (α : Type) (ι : outParam Type) where
  port : α → Option CString
  vrf : α → Option CString
  index : α → ι
  servers : α → List CString
  gateway : α → Option CString

instance : ServerRow DhcpRelayRow Unit where
  port := DhcpRelayRow.port
  vrf := DhcpRelayRow.vrf
  index _ := ()
  servers := DhcpRelayRow.ipv4UcastServer
  gateway := DhcpRelayRow.bootpGateway

instance : ServerRow UdpBcastForwarderRow ℤ where
  port := UdpBcastForwarderRow.srcPort
  vrf := UdpBcastForwarderRow.destVrf
  index := UdpBcastForwarderRow.udpDport
  servers := UdpBcastForwarderRow.ipv4UcastServer
  gateway _ := none

/-- What a row is looked up by. -/
abbrev RowKey (ι : Type) := Option CString × Option CString × ι

/-- What else a row has: the addresses in any order, and the gateway. -/
abbrev RowValue := Multiset CString × Option CString

section rows

variable {α ι : Type} [ServerRow α ι]

open ServerRow

/-- The key of a row. -/
def rowKey (row : α) : RowKey ι := (port row, vrf row, index row)

/-- The value of a row. -/
def rowValue (row : α) : RowValue := (servers row, gateway row)

/-! ## The sets -/

/-- The addresses and the gateway of an interface, by its name and the index. -/
abbrev Entries (ι : Type) := CString × ι → Finset CString × Option CString

/-- The rows that go with the entries, in the default VRF. -/
def columns (defaultVrfName : CString) (g : Entries ι) : RowKey ι → RowValue
  | (some name, some vrf, i) =>
    if vrf = defaultVrfName then ((g (name, i)).1.val, (g (name, i)).2) else (0, none)
  | _ => (0, none)

/-- The table has the rows of the entries. -/
def Holds (defaultVrfName : CString) (rows : List α) (g : Entries ι) : Prop :=
  Represents rowKey rowValue (0, none) rows (columns defaultVrfName g)

variable {defaultVrfName : CString} {rows rows' : List α} {g : Entries ι} {name : CString}
  {i : ι}

@[simp]
theorem columns_apply :
    columns defaultVrfName g (some name, some defaultVrfName, i)
      = ((g (name, i)).1.val, (g (name, i)).2) := if_pos rfl

theorem columns_update [DecidableEq ι] (entry : Finset CString × Option CString) :
    Function.update (columns defaultVrfName g) (some name, some defaultVrfName, i)
        (entry.1.val, entry.2)
      = columns defaultVrfName (Function.update g (name, i) entry) := by
  funext ⟨port, vrf, j⟩
  by_cases hkey : ((port, vrf, j) : RowKey ι) = (some name, some defaultVrfName, i)
  · rw [hkey, Function.update_self, columns_apply, Function.update_self]
  · rw [Function.update_of_ne hkey]
    cases port with
    | none => rfl
    | some other =>
      cases vrf with
      | none => rfl
      | some vrf =>
        by_cases hvrf : vrf = defaultVrfName
        · have hne : (other, j) ≠ (name, i) := by
            rintro ⟨⟩
            exact hkey (by rw [hvrf])
          rw [hvrf, columns_apply, columns_apply, Function.update_of_ne hne]
        · exact (if_neg hvrf).trans (if_neg hvrf).symm

/-- A row of a table has the entry of its interface. -/
theorem Holds.row (h : Holds defaultVrfName rows g) {row : α} (hrow : row ∈ rows) :
    ∃ name, rowKey row = (some name, some defaultVrfName, index row) ∧
      rowValue row = ((g (name, index row)).1.val, (g (name, index row)).2) := by
  have ⟨hvalue, hne⟩ := h.value hrow
  unfold rowKey at hvalue ⊢
  cases hport : port row with
  | none =>
    rw [hport] at hvalue
    exact absurd hvalue.symm hne
  | some name =>
    cases hvrf : vrf row with
    | none =>
      rw [hport, hvrf] at hvalue
      exact absurd hvalue.symm hne
    | some vrfName =>
      rw [hport, hvrf] at hvalue
      by_cases hdefault : vrfName = defaultVrfName
      · rw [hdefault, columns_apply] at hvalue
        exact ⟨name, by rw [hdefault], hvalue.symm⟩
      · exact absurd ((if_neg hdefault).symm.trans hvalue).symm hne

/-- The entry of a row that has the key of the interface. -/
theorem Holds.value_of_key (h : Holds defaultVrfName rows g) {row : α} (hrow : row ∈ rows)
    (hkey : rowKey row = (some name, some defaultVrfName, i)) :
    rowValue row = ((g (name, i)).1.val, (g (name, i)).2) := by
  rw [← (h.value hrow).1, hkey, columns_apply]

/-- The addresses of the entry are in the row that has the key. -/
theorem Holds.mem_servers (h : Holds defaultVrfName rows g) {row : α} (hrow : row ∈ rows)
    (hkey : rowKey row = (some name, some defaultVrfName, i)) {ipAddr : CString}
    (hmem : ipAddr ∈ (g (name, i)).1) : ipAddr ∈ servers row := by
  have hvalue := h.value_of_key hrow hkey
  rw [← Finset.mem_val, ← (Prod.mk.inj hvalue).1] at hmem
  exact hmem

/-- A row has no address twice. -/
theorem Holds.servers_nodup (h : Holds defaultVrfName rows g) {row : α} (hrow : row ∈ rows) :
    (servers row).Nodup := by
  have ⟨name, _, hvalue⟩ := h.row hrow
  have hservers : (servers row : Multiset CString) = (g (name, index row)).1.val :=
    (Prod.mk.inj hvalue).1
  rw [← Multiset.coe_nodup, hservers]
  exact (g (name, index row)).1.nodup

/-- The entry of an interface without a row. -/
theorem Holds.entry_of_free (h : Holds defaultVrfName rows g)
    (hfree : ∀ row ∈ rows, rowKey row ≠ (some name, some defaultVrfName, i)) :
    g (name, i) = (∅, none) := by
  have hdefault := h.eq_default hfree
  rw [columns_apply, Prod.mk.injEq, Finset.val_eq_zero] at hdefault
  exact Prod.ext hdefault.1 hdefault.2

/-! ## Operations -/

section operations

variable [DecidableEq ι] {b : RowValue} {ipAddr : CString}

/-- An address is added for an interface. -/
def Entries.add (g : Entries ι) (name : CString) (i : ι) (ipAddr : CString) : Entries ι :=
  Function.update g (name, i) (insert ipAddr (g (name, i)).1, (g (name, i)).2)

/-- An address is removed from an interface. -/
def Entries.remove (g : Entries ι) (name : CString) (i : ι) (ipAddr : CString) : Entries ι :=
  Function.update g (name, i) ((g (name, i)).1.erase ipAddr, (g (name, i)).2)

/-- The gateway of an interface is set or removed. -/
def Entries.setGateway (g : Entries ι) (name : CString) (i : ι) (gateway : Option CString) :
    Entries ι :=
  Function.update g (name, i) ((g (name, i)).1, gateway)

/-- Removing an address that was added restores the entries. -/
theorem Entries.remove_add (h : ipAddr ∉ (g (name, i)).1) :
    (g.add name i ipAddr).remove name i ipAddr = g := by
  unfold remove add
  rw [Function.update_idem, Function.update_self, Finset.erase_insert h]
  exact Function.update_eq_self _ _

/-- An edit of the row of an interface. -/
abbrev EditsRow (defaultVrfName : CString) (rows : List α) (name : CString) (i : ι)
    (b b' : RowValue) (rows' : List α) : Prop :=
  Edits rowKey rowValue (0, none) rows (some name, some defaultVrfName, i) b b' rows'

/-- The row of an interface has its entry before an edit. -/
theorem Holds.old_value (h : Holds defaultVrfName rows g) {b' : RowValue}
    (hedits : EditsRow defaultVrfName rows name i b b' rows') :
    b = ((g (name, i)).1.val, (g (name, i)).2) := by
  rw [← (h.edits hedits).1, columns_apply]

/-- After an edit of a row the table has the edited entry. -/
theorem Holds.edits (h : Holds defaultVrfName rows g) {b' : RowValue}
    (hedits : EditsRow defaultVrfName rows name i b b' rows')
    (entry : Finset CString × Option CString) (hentry : b' = (entry.1.val, entry.2)) :
    Holds defaultVrfName rows' (Function.update g (name, i) entry) := by
  unfold Holds
  rw [← columns_update, ← hentry]
  exact (Represents.edits h hedits).2

/-- A row that gains an address. -/
theorem Holds.add (h : Holds defaultVrfName rows g) (hfree : ipAddr ∉ b.1)
    (hedits : EditsRow defaultVrfName rows name i b (ipAddr ::ₘ b.1, b.2) rows') :
    ipAddr ∉ (g (name, i)).1 ∧ Holds defaultVrfName rows' (g.add name i ipAddr) := by
  have hold := h.old_value hedits
  rw [hold] at hfree
  refine ⟨hfree, h.edits hedits _ ?_⟩
  rw [hold, Finset.insert_val_of_notMem hfree]

/-- A row that loses an address. -/
theorem Holds.remove (h : Holds defaultVrfName rows g)
    (hedits : EditsRow defaultVrfName rows name i b (b.1.filter (ipAddr ≠ ·), b.2) rows') :
    Holds defaultVrfName rows' (g.remove name i ipAddr) := by
  refine h.edits hedits _ ?_
  rw [h.old_value hedits, Finset.erase_val, (g (name, i)).1.nodup.erase_eq_filter]
  simp only [ne_comm]

/-- A row whose gateway changes. -/
theorem Holds.setGateway (h : Holds defaultVrfName rows g) {gateway : Option CString}
    (hedits : EditsRow defaultVrfName rows name i b (b.1, gateway) rows') :
    Holds defaultVrfName rows' (g.setGateway name i gateway) := by
  refine h.edits hedits _ ?_
  rw [h.old_value hedits]

end operations

/-! ## The edits of the commands -/

section edits

variable {row : α} {ipAddr : CString} (j : Fin rows.length)

/-- `rowKey` of the rows of an interface. -/
abbrev interfaceKey (defaultVrfName name : CString) (i : ι) : RowKey ι :=
  (some name, some defaultVrfName, i)

/-- A row is inserted for an interface that has none. -/
theorem editsRow_insert (hfree : ∀ other ∈ rows, rowKey other ≠ interfaceKey defaultVrfName name i)
    (hkey : rowKey row = interfaceKey defaultVrfName name i) {b' : RowValue}
    (hval : rowValue row = b') (hne : b' ≠ (0, none)) :
    EditsRow defaultVrfName rows name i (0, none) b' (rows ++ [row]) :=
  hval ▸ Edits.append hfree hkey (hval ▸ hne)

/-- A row is changed, but for its key. -/
theorem editsRow_set (row : α) (hold : rowKey rows[j] = interfaceKey defaultVrfName name i)
    (hkey : rowKey row = rowKey rows[j]) {b' : RowValue} (hval : rowValue row = b')
    (hne : b' ≠ (0, none)) :
    EditsRow defaultVrfName rows name i (rowValue rows[j]) b' (rows.set j row) :=
  hval ▸ Edits.set j hold (hkey.trans hold) (hval ▸ hne)

/-- `udpfwd_serverupdate` adds an address to a row. -/
theorem editsRow_extend (hold : rowKey rows[j] = interfaceKey defaultVrfName name i)
    (hkey : rowKey row = rowKey rows[j])
    (hservers : servers row = udpfwdServerupdate (servers rows[j]) true ipAddr)
    (hgateway : gateway row = gateway rows[j]) :
    EditsRow defaultVrfName rows name i (rowValue rows[j])
      (ipAddr ::ₘ (rowValue rows[j]).1, (rowValue rows[j]).2) (rows.set j row) := by
  refine editsRow_set j row hold hkey ?_ fun h => Multiset.cons_ne_zero (Prod.mk.inj h).1
  unfold rowValue
  rw [hservers, hgateway]
  exact Prod.ext (Multiset.coe_eq_coe.mpr (List.perm_append_singleton _ _)) rfl

/-- The row of the last address is taken away. -/
theorem editsRow_delete (hold : rowKey rows[j] = interfaceKey defaultVrfName name i)
    (hmem : ipAddr ∈ servers rows[j]) (hlength : (servers rows[j]).length = 1)
    (hgateway : gateway rows[j] = none) :
    EditsRow defaultVrfName rows name i (rowValue rows[j])
      ((rowValue rows[j]).1.filter (ipAddr ≠ ·), (rowValue rows[j]).2) (rows.eraseIdx j) := by
  have ⟨server, hserver⟩ := List.length_eq_one_iff.mp hlength
  have hfilter : ((rowValue rows[j]).1.filter (ipAddr ≠ ·), (rowValue rows[j]).2) = (0, none) := by
    unfold rowValue
    rw [hserver] at hmem ⊢
    rw [List.mem_singleton.mp hmem, hgateway]
    simp
  rw [hfilter]
  exact Edits.eraseIdx j hold

/-- `udpfwd_serverupdate` removes an address from a row that keeps another address, or the
gateway. -/
theorem editsRow_shrink (hold : rowKey rows[j] = interfaceKey defaultVrfName name i)
    (hkey : rowKey row = rowKey rows[j])
    (hservers : servers row = udpfwdServerupdate (servers rows[j]) false ipAddr)
    (hgateway : gateway row = gateway rows[j]) (hnodup : (servers rows[j]).Nodup)
    (hkeeps : (servers rows[j]).length ≠ 1 ∨ gateway rows[j] ≠ none)
    (hmem : ipAddr ∈ servers rows[j]) :
    EditsRow defaultVrfName rows name i (rowValue rows[j])
      ((rowValue rows[j]).1.filter (ipAddr ≠ ·), (rowValue rows[j]).2) (rows.set j row) := by
  refine editsRow_set j row hold hkey ?_ fun h => ?_
  · unfold rowValue
    rw [hservers, hgateway]
    exact Prod.ext (Multiset.filter_coe _ _).symm rfl
  · rcases hkeeps with hlength | hkept
    · -- the filter is empty only if the address is the whole list
      have hall : ∀ server ∈ servers rows[j], server = ipAddr := by
        intro server hserver
        have hout := Multiset.filter_eq_nil.mp (Prod.mk.inj h).1 server hserver
        exact (not_not.mp hout).symm
      have hreplicate := List.eq_replicate_of_mem hall
      rw [hreplicate, List.nodup_replicate] at hnodup
      have hpos := List.length_pos_of_mem hmem
      omega
    · exact hkept (Prod.mk.inj h).2

end edits

/-! ## The number of addresses -/

/-- What a row counts for an interface. -/
def addressCount (name : CString) (row : RowKey ι × RowValue) : ℕ :=
  if row.1.1 = some name then row.2.1.card else 0

/-- The addresses of an interface in a table. -/
def addressTotal (rows : List α) (name : CString) : ℕ :=
  total rowKey rowValue (addressCount name) rows

theorem addressTotal_cons (row : α) :
    addressTotal (row :: rows) name
      = (if port row = some name then (servers row).length else 0) + addressTotal rows name := rfl

/-- The loop counts the addresses of the interface, and stops at the maximum. -/
theorem maxcountReached_iff {maxAddresses entries : ℕ} (h : entries < maxAddresses) :
    maxcountReached maxAddresses name entries
        (rows.map fun row => (port row, servers row)) = true ↔
      maxAddresses ≤ entries + addressTotal rows name := by
  induction rows generalizing entries with
  | nil =>
    refine iff_of_false nofun ?_
    show ¬maxAddresses ≤ entries + 0
    omega
  | cons row rows ih =>
    rw [List.map_cons, maxcountReached, addressTotal_cons]
    by_cases hport : port row = some name
    · rw [if_pos hport, if_pos hport]
      by_cases hreached : maxAddresses ≤ entries + (servers row).length
      · rw [if_pos hreached]
        exact iff_of_true rfl (by omega)
      · rw [if_neg hreached, ih (by omega), Nat.add_assoc]
    · rw [if_neg hport, if_neg hport, ih h, Nat.zero_add]

/-- An edit changes the count of its own interface. -/
theorem EditsRow.addressTotal_eq {b b' : RowValue} (name' : CString)
    (h : Edits rowKey rowValue (0, none) rows (some name, some defaultVrfName, i) b b' rows') :
    addressTotal rows' name' + (if name = name' then b.1.card else 0)
      = addressTotal rows name' + (if name = name' then b'.1.card else 0) := by
  have hcount : ∀ b : RowValue, addressCount name' ((some name, some defaultVrfName, i), b)
      = if name = name' then b.1.card else 0 := by
    intro b
    simp [addressCount]
  have htotal := h.total_eq (addressCount name') (by rw [hcount]; simp)
  rw [hcount, hcount] at htotal
  exact htotal

end rows

end Vty
end Udpfwd
end IpApps
