import IpApps.InetPton
import IpApps.Udpfwd.ServerTables

/-!
# Runs of the server commands

The commands for helper addresses, forward-protocol servers and bootp gateways, one after the
other on any interfaces, from empty tables. `wellFormed_of_reachable` says how the tables look
in every run, and `unset_restores` that a server which was set can be unset without a trace.
-/

namespace IpApps
namespace Udpfwd
namespace Vty

/-! ## What each command writes -/

section written

variable {defaultVrfName : CString} {vty : Session} {ipAddr gatewayAddress : CString} {udpPort : ℤ}

/-- The interface has a port row, and the VRF table the default VRF. -/
structure Session.Ready (defaultVrfName : CString) (vty : Session) : Prop where
  port : ∃ port ∈ vty.ports, port.name = vty.index
  vrf : defaultVrfName ∈ vty.vrfs

theorem Session.Ready.portOfName (h : vty.Ready defaultVrfName) :
    ∃ port, portOfName vty.ports vty.index = some port ∧ port.name = vty.index := by
  have ⟨port, hport, hname⟩ := h.port
  cases hfind : Vty.portOfName vty.ports vty.index with
  | none =>
    have hnone := List.find?_eq_none.mp hfind port hport
    exact absurd (decide_eq_true hname) hnone
  | some found => exact ⟨found, rfl, portOfName_name hfind⟩

theorem udpfwdSetcommoncolumn_ready (h : vty.Ready defaultVrfName) :
    udpfwdSetcommoncolumn defaultVrfName vty = some (some vty.index, defaultVrfName) := by
  have ⟨port, hport, hname⟩ := h.portOfName
  unfold udpfwdSetcommoncolumn
  rw [udpBcastConfigVrfLookup_of_mem h.vrf, hport, Option.map_some, Option.map_some, hname]

theorem written_ne_some {α : Type} {outcome : Outcome α} {written : α}
    (hnone : outcome.written = none) : outcome.written ≠ some written := by
  rw [hnone]
  exact (Option.some_ne_none _).symm

theorem finish_written {α : Type} {txn : Txn} {table written : α}
    (h : (finish txn table).written = some written) : written = table := by
  unfold finish at h
  split at h
  · exact (Option.some.inj h).symm
  · exact absurd h (written_ne_some rfl)

theorem findUdpfwdServerIp_iff {servers : List CString} :
    findUdpfwdServerIp servers ipAddr = true ↔ ipAddr ∈ servers := by
  unfold findUdpfwdServerIp
  rw [List.any_eq_true]
  constructor
  · rintro ⟨server, hserver, heq⟩
    rw [of_decide_eq_true heq]
    exact hserver
  · exact fun h => ⟨ipAddr, h, decide_eq_true rfl⟩

section relay

variable {rows rows' : List DhcpRelayRow} {g : Entries Unit}

theorem dhcpRelayRowLookup_key {portname vrfName : CString} {i : Fin rows.length}
    (h : dhcpRelayRowLookup rows portname vrfName = some i) :
    rowKey (rows.get i) = interfaceKey vrfName portname () := by
  have hspec := dhcpRelayRowLookup_spec h
  exact Prod.ext hspec.1 (Prod.ext hspec.2 rfl)

theorem dhcpRelayRowLookup_free {portname vrfName : CString}
    (h : dhcpRelayRowLookup rows portname vrfName = none) :
    ∀ row ∈ rows, rowKey row ≠ interfaceKey vrfName portname () := by
  intro row hrow hkey
  have hnone := List.findFinIdx?_eq_none_iff.mp h row hrow
  refine hnone (decide_eq_true ⟨?_, ?_⟩)
  · exact (Prod.mk.inj hkey).1
  · exact (Prod.mk.inj (Prod.mk.inj hkey).2).1

theorem helperMaxcountReached_iff {portname : CString} :
    helperMaxcountReached rows portname = true ↔ 8 ≤ addressTotal rows portname := by
  have hiff : helperMaxcountReached rows portname = true ↔ 8 ≤ 0 + addressTotal rows portname :=
    maxcountReached_iff (by decide : 0 < 8)
  rw [hiff, Nat.zero_add]

/-- Setting a helper address adds it to the row of the interface. -/
theorem helperSet_written (hready : vty.Ready defaultVrfName)
    (h : (dhcpRelayHelperaddressconfig defaultVrfName vty rows ipAddr true).written = some rows') :
    addressTotal rows vty.index < 8 ∧ ∃ b, ipAddr ∉ b.1 ∧
      EditsRow defaultVrfName rows vty.index () b (ipAddr ::ₘ b.1, b.2) rows' := by
  unfold dhcpRelayHelperaddressconfig at h
  rw [udpfwdSetcommoncolumn_ready hready] at h
  split at h
  · exact absurd h (written_ne_some rfl)
  · simp only [if_true] at h
    split at h
    · exact absurd h (written_ne_some rfl)
    · rename_i hmax
      rw [helperMaxcountReached_iff, Nat.not_le] at hmax
      refine ⟨hmax, ?_⟩
      -- a new row has the one address, a row that is there is extended unless it has it
      cases hrow : dhcpRelayRowLookup rows vty.index defaultVrfName with
      | none =>
        rw [hrow] at h
        rw [finish_written h]
        refine ⟨(0, none), Multiset.notMem_zero _, ?_⟩
        exact editsRow_insert (dhcpRelayRowLookup_free hrow) rfl rfl
          fun heq => Multiset.cons_ne_zero (Prod.mk.inj heq).1
      | some i =>
        rw [hrow] at h
        dsimp only at h
        split at h
        · rename_i hmatch
          rw [finish_written h]
          refine ⟨_, ?_, editsRow_extend i (dhcpRelayRowLookup_key hrow) rfl rfl rfl⟩
          rw [findUdpfwdServerIp_iff] at hmatch
          exact hmatch
        · exact absurd h (written_ne_some rfl)

/-- Unsetting a helper address removes it from the row of the interface. -/
theorem helperUnset_written (hrows : Holds defaultVrfName rows g)
    (h : (dhcpRelayHelperaddressconfig defaultVrfName vty rows ipAddr false).written
      = some rows') :
    ∃ b, EditsRow defaultVrfName rows vty.index () b (b.1.filter (ipAddr ≠ ·), b.2) rows' := by
  unfold dhcpRelayHelperaddressconfig at h
  split at h
  · exact absurd h (written_ne_some rfl)
  · simp only [Bool.false_eq_true, if_false] at h
    cases hrow : dhcpRelayRowLookup rows vty.index defaultVrfName with
    | none =>
      rw [hrow] at h
      exact absurd h (written_ne_some rfl)
    | some i =>
      rw [hrow] at h
      dsimp only at h
      have hkey := dhcpRelayRowLookup_key hrow
      split at h
      · exact absurd h (written_ne_some rfl)
      · rename_i hmatch
        rw [not_not, findUdpfwdServerIp_iff] at hmatch
        have hshrink (hkeeps : rows[i].ipv4UcastServer.length ≠ 1 ∨ rows[i].bootpGateway ≠ none) :
            EditsRow defaultVrfName rows vty.index () (rowValue rows[i])
              ((rowValue rows[i]).1.filter (ipAddr ≠ ·), (rowValue rows[i]).2)
              (updateHelpers rows i false ipAddr) :=
          editsRow_shrink i hkey rfl rfl rfl (hrows.servers_nodup (List.getElem_mem _)) hkeeps
            hmatch
        refine ⟨rowValue rows[i], ?_⟩
        -- the last address takes the row with it, unless there is a gateway
        split at h
        · rename_i hlength
          split at h
          · rename_i hgateway
            rw [finish_written h]
            exact editsRow_delete i hkey hmatch hlength hgateway
          · rename_i gateway hgateway
            rw [finish_written h]
            exact hshrink (Or.inr (by rw [hgateway]; exact Option.some_ne_none _))
        · rename_i hlength
          rw [finish_written h]
          exact hshrink (Or.inl hlength)

/-- A helper address of the interface can be unset. -/
theorem helperUnset_accepted (hrows : Holds defaultVrfName rows g) (htxn : vty.txn = committedTxn)
    (hmem : ipAddr ∈ (g (vty.index, ())).1) :
    ∃ rows', (dhcpRelayHelperaddressconfig defaultVrfName vty rows ipAddr false).written
      = some rows' := by
  unfold dhcpRelayHelperaddressconfig
  rw [htxn]
  cases hrow : dhcpRelayRowLookup rows vty.index defaultVrfName with
  | none =>
    rw [hrows.entry_of_free (dhcpRelayRowLookup_free hrow)] at hmem
    exact absurd hmem (Finset.notMem_empty _)
  | some i =>
    have hservers : ipAddr ∈ rows[i].ipv4UcastServer :=
      hrows.mem_servers (List.getElem_mem i.isLt) (dhcpRelayRowLookup_key hrow) hmem
    have hmatch := findUdpfwdServerIp_iff.mpr hservers
    rw [← Option.isSome_iff_exists]
    simp only [committedTxn, hmatch, not_true_eq_false, if_false, Bool.false_eq_true]
    split
    · split <;> rfl
    · rfl

/-- Setting a gateway gives it to the row of the interface. -/
theorem gatewaySet_written (hready : vty.Ready defaultVrfName)
    (h : (dhcpRelayBootpGatewayConfig defaultVrfName vty rows gatewayAddress true).written
      = some rows') :
    ∃ b, EditsRow defaultVrfName rows vty.index () b (b.1, some gatewayAddress) rows' := by
  have ⟨port, hport, hname⟩ := hready.portOfName
  unfold dhcpRelayBootpGatewayConfig at h
  rw [hport, udpBcastConfigVrfLookup_of_mem hready.vrf] at h
  split at h
  · exact absurd h (written_ne_some rfl)
  · simp only [if_true] at h
    split at h
    · exact absurd h (written_ne_some rfl)
    · cases hrow : dhcpRelayRowLookup rows vty.index defaultVrfName with
      | none =>
        rw [hrow] at h
        rw [finish_written h]
        rw [Option.map_some, hname]
        refine ⟨(0, none), editsRow_insert (dhcpRelayRowLookup_free hrow) rfl rfl ?_⟩
        exact fun heq => absurd (Prod.mk.inj heq).2 nofun
      | some i =>
        rw [hrow] at h
        rw [finish_written h]
        refine ⟨rowValue rows[i], editsRow_set i
          { rows[i] with bootpGateway := some gatewayAddress } (dhcpRelayRowLookup_key hrow) rfl
          rfl ?_⟩
        exact fun heq => absurd (Prod.mk.inj heq).2 nofun

/-- Unsetting a gateway takes it from the row of the interface. -/
theorem gatewayUnset_written
    (h : (dhcpRelayBootpGatewayConfig defaultVrfName vty rows gatewayAddress false).written
      = some rows') :
    ∃ b, EditsRow defaultVrfName rows vty.index () b (b.1, none) rows' := by
  unfold dhcpRelayBootpGatewayConfig at h
  split at h
  · exact absurd h (written_ne_some rfl)
  · simp only [Bool.false_eq_true, if_false] at h
    cases hrow : dhcpRelayRowLookup rows vty.index defaultVrfName with
    | none =>
      rw [hrow] at h
      exact absurd h (written_ne_some rfl)
    | some i =>
      rw [hrow] at h
      dsimp only at h
      have hkey := dhcpRelayRowLookup_key hrow
      split at h
      · refine ⟨rowValue rows[i], ?_⟩
        split at h
        · rename_i hlength
          rw [finish_written h]
          refine editsRow_set i { rows[i] with bootpGateway := none } hkey rfl rfl
            fun heq => hlength ?_
          exact congrArg Multiset.card (Prod.mk.inj heq).1
        · -- a row without addresses goes with its gateway
          rename_i hlength
          rw [finish_written h]
          have hempty : ((rowValue rows[i]).1, none) = ((0, none) : RowValue) := by
            refine Prod.ext ?_ rfl
            exact Multiset.card_eq_zero.mp (not_not.mp hlength)
          rw [hempty]
          exact KeyedTable.Edits.eraseIdx i hkey
      · exact absurd h (written_ne_some rfl)

end relay

section forwarder

variable {rows rows' : List UdpBcastForwarderRow} {g : Entries ℤ}

theorem udpBcastServerRowLookup_key {portname vrfName : CString} {i : Fin rows.length}
    (h : udpBcastServerRowLookup rows portname vrfName udpPort = some i) :
    rowKey (rows.get i) = interfaceKey vrfName portname udpPort := by
  have hspec := of_decide_eq_true (List.findFinIdx?_eq_some_iff.mp h).1
  exact Prod.ext hspec.1 (Prod.ext hspec.2.1 hspec.2.2)

theorem udpBcastServerRowLookup_free {portname vrfName : CString}
    (h : udpBcastServerRowLookup rows portname vrfName udpPort = none) :
    ∀ row ∈ rows, rowKey row ≠ interfaceKey vrfName portname udpPort := by
  intro row hrow hkey
  have hnone := List.findFinIdx?_eq_none_iff.mp h row hrow
  have hrest := Prod.mk.inj (Prod.mk.inj hkey).2
  exact hnone (decide_eq_true ⟨(Prod.mk.inj hkey).1, hrest.1, hrest.2⟩)

theorem forwarderMaxcountReached_iff {portname : CString} :
    forwarderMaxcountReached rows portname = true ↔ 8 ≤ addressTotal rows portname := by
  have hiff : forwarderMaxcountReached rows portname = true ↔
      8 ≤ 0 + addressTotal rows portname := maxcountReached_iff (by decide : 0 < 8)
  rw [hiff, Nat.zero_add]

/-- Setting a forward-protocol server adds it to the row of the interface and the port. -/
theorem forwarderSet_written (hready : vty.Ready defaultVrfName)
    (h : (udpfwdServerconfig defaultVrfName vty rows ipAddr udpPort true).written = some rows') :
    addressTotal rows vty.index < 8 ∧ ∃ b, ipAddr ∉ b.1 ∧
      EditsRow defaultVrfName rows vty.index udpPort b (ipAddr ::ₘ b.1, b.2) rows' := by
  unfold udpfwdServerconfig at h
  rw [udpfwdSetcommoncolumn_ready hready] at h
  split at h
  · exact absurd h (written_ne_some rfl)
  · simp only [if_true] at h
    split at h
    · exact absurd h (written_ne_some rfl)
    · rename_i hmax
      rw [forwarderMaxcountReached_iff, Nat.not_le] at hmax
      refine ⟨hmax, ?_⟩
      cases hrow : udpBcastServerRowLookup rows vty.index defaultVrfName udpPort with
      | none =>
        rw [hrow] at h
        rw [finish_written h]
        refine ⟨(0, none), Multiset.notMem_zero _, ?_⟩
        exact editsRow_insert (udpBcastServerRowLookup_free hrow) rfl rfl
          fun heq => Multiset.cons_ne_zero (Prod.mk.inj heq).1
      | some i =>
        rw [hrow] at h
        dsimp only at h
        split at h
        · rename_i hmatch
          rw [finish_written h]
          refine ⟨_, ?_, editsRow_extend i (udpBcastServerRowLookup_key hrow) rfl rfl rfl⟩
          rw [findUdpfwdServerIp_iff] at hmatch
          exact hmatch
        · exact absurd h (written_ne_some rfl)

/-- Unsetting a forward-protocol server removes it from the row of the interface and the
port. -/
theorem forwarderUnset_written (hrows : Holds defaultVrfName rows g)
    (h : (udpfwdServerconfig defaultVrfName vty rows ipAddr udpPort false).written
      = some rows') :
    ∃ b, EditsRow defaultVrfName rows vty.index udpPort b (b.1.filter (ipAddr ≠ ·), b.2)
      rows' := by
  unfold udpfwdServerconfig at h
  split at h
  · exact absurd h (written_ne_some rfl)
  · simp only [Bool.false_eq_true, if_false] at h
    cases hrow : udpBcastServerRowLookup rows vty.index defaultVrfName udpPort with
    | none =>
      rw [hrow] at h
      exact absurd h (written_ne_some rfl)
    | some i =>
      rw [hrow] at h
      dsimp only at h
      have hkey := udpBcastServerRowLookup_key hrow
      split at h
      · exact absurd h (written_ne_some rfl)
      · rename_i hmatch
        rw [not_not, findUdpfwdServerIp_iff] at hmatch
        -- the last address takes the row with it
        refine ⟨rowValue rows[i], ?_⟩
        split at h
        · rename_i hlength
          rw [finish_written h]
          exact editsRow_delete i hkey hmatch hlength rfl
        · rename_i hlength
          rw [finish_written h]
          exact editsRow_shrink i hkey rfl rfl rfl (hrows.servers_nodup (List.getElem_mem _))
            (Or.inl hlength) hmatch

/-- A forward-protocol server of the interface can be unset. -/
theorem forwarderUnset_accepted (hrows : Holds defaultVrfName rows g)
    (htxn : vty.txn = committedTxn) (hmem : ipAddr ∈ (g (vty.index, udpPort)).1) :
    ∃ rows', (udpfwdServerconfig defaultVrfName vty rows ipAddr udpPort false).written
      = some rows' := by
  unfold udpfwdServerconfig
  rw [htxn]
  cases hrow : udpBcastServerRowLookup rows vty.index defaultVrfName udpPort with
  | none =>
    rw [hrows.entry_of_free (udpBcastServerRowLookup_free hrow)] at hmem
    exact absurd hmem (Finset.notMem_empty _)
  | some i =>
    have hservers : ipAddr ∈ rows[i].ipv4UcastServer :=
      hrows.mem_servers (List.getElem_mem i.isLt) (udpBcastServerRowLookup_key hrow) hmem
    have hmatch := findUdpfwdServerIp_iff.mpr hservers
    rw [← Option.isSome_iff_exists]
    simp only [committedTxn, hmatch, not_true_eq_false, if_false, Bool.false_eq_true]
    split <;> rfl

end forwarder

end written

/-! ## The invariant of a table -/

/-- A table has the rows of some entries, at most eight addresses of each interface, and only
addresses that `inet_pton` accepts. -/
structure TableInv {α ι : Type} [ServerRow α ι] (defaultVrfName : CString) (rows : List α)
    (g : Entries ι) : Prop where
  holds : Holds defaultVrfName rows g
  total_le : ∀ name, addressTotal rows name ≤ 8
  accepted : ∀ k, ∀ ipAddr ∈ (g k).1, (Libc.inetPton ipAddr).isSome

namespace TableInv

variable {α ι : Type} [ServerRow α ι] {defaultVrfName : CString} {rows rows' : List α}
  {g : Entries ι} {name ipAddr : CString} {i : ι} {b : RowValue}

theorem empty : TableInv defaultVrfName ([] : List α) fun _ => (∅, none) := by
  refine ⟨?_, fun _ => Nat.zero_le 8, fun _ _ h => absurd h (Finset.notMem_empty _)⟩
  have hcolumns : columns defaultVrfName (fun _ : CString × ι => (∅, none))
      = fun _ => (0, none) := by
    funext ⟨port, vrf, j⟩
    cases port with
    | none => rfl
    | some port =>
      cases vrf with
      | none => rfl
      | some vrf => exact ite_self _
  unfold Holds
  rw [hcolumns]
  exact KeyedTable.represents_nil

theorem same (h : TableInv defaultVrfName rows g)
    (hsame : KeyedTable.SameRows rowKey rowValue rows rows') : TableInv defaultVrfName rows' g where
  holds := hsame.represents h.holds
  total_le name := by
    unfold addressTotal
    rw [← hsame.total_eq]
    exact h.total_le name
  accepted := h.accepted

/-- Fewer addresses keep the bound. -/
theorem total_le_of_edits (h : TableInv defaultVrfName rows g) {b' : RowValue}
    (hedits : EditsRow defaultVrfName rows name i b b' rows') (hcard : b'.1.card ≤ b.1.card)
    (name' : CString) : addressTotal rows' name' ≤ 8 := by
  have hcount := EditsRow.addressTotal_eq name' hedits
  have hle := h.total_le name'
  by_cases hname : name = name'
  · rw [if_pos hname, if_pos hname] at hcount
    omega
  · rw [if_neg hname, if_neg hname] at hcount
    omega

variable [DecidableEq ι]

/-- The entry that is updated has accepted addresses if the new one does. -/
theorem accepted_update (h : TableInv defaultVrfName rows g)
    {entry : Finset CString × Option CString}
    (hentry : ∀ server ∈ entry.1, (Libc.inetPton server).isSome) :
    ∀ k, ∀ server ∈ (Function.update g (name, i) entry k).1, (Libc.inetPton server).isSome := by
  intro k server hserver
  by_cases hk : k = (name, i)
  · rw [hk, Function.update_self] at hserver
    exact hentry server hserver
  · rw [Function.update_of_ne hk] at hserver
    exact h.accepted k server hserver

theorem add (h : TableInv defaultVrfName rows g) (htotal : addressTotal rows name < 8)
    (hip : (Libc.inetPton ipAddr).isSome) (hfree : ipAddr ∉ b.1)
    (hedits : EditsRow defaultVrfName rows name i b (ipAddr ::ₘ b.1, b.2) rows') :
    ipAddr ∉ (g (name, i)).1 ∧ TableInv defaultVrfName rows' (g.add name i ipAddr) := by
  have ⟨hnew, hholds⟩ := h.holds.add hfree hedits
  refine ⟨hnew, hholds, fun name' => ?_, h.accepted_update fun server hserver => ?_⟩
  · have hcount := EditsRow.addressTotal_eq name' hedits
    have hle := h.total_le name'
    rw [Multiset.card_cons] at hcount
    by_cases hname : name = name'
    · rw [if_pos hname, if_pos hname] at hcount
      rw [hname] at htotal
      omega
    · rw [if_neg hname, if_neg hname] at hcount
      omega
  · rcases Finset.mem_insert.mp hserver with heq | hold
    · rw [heq]
      exact hip
    · exact h.accepted _ server hold

theorem remove (h : TableInv defaultVrfName rows g)
    (hedits : EditsRow defaultVrfName rows name i b (b.1.filter (ipAddr ≠ ·), b.2) rows') :
    TableInv defaultVrfName rows' (g.remove name i ipAddr) where
  holds := h.holds.remove hedits
  total_le := h.total_le_of_edits hedits (Multiset.card_le_card (Multiset.filter_le _ _))
  accepted := h.accepted_update fun server hserver =>
    h.accepted _ server (Finset.mem_of_mem_erase hserver)

theorem setGateway (h : TableInv defaultVrfName rows g) {gateway : Option CString}
    (hedits : EditsRow defaultVrfName rows name i b (b.1, gateway) rows') :
    TableInv defaultVrfName rows' (g.setGateway name i gateway) where
  holds := h.holds.setGateway hedits
  total_le := h.total_le_of_edits hedits (Nat.le_refl _)
  accepted := h.accepted_update (h.accepted (name, i))

/-- An address that is added and removed leaves the rows as they were. -/
theorem restored {rows₁ rows₂ : List α} (h : TableInv defaultVrfName rows g)
    (hnew : ipAddr ∉ (g (name, i)).1)
    (hadded : TableInv defaultVrfName rows₁ (g.add name i ipAddr))
    (hedits : EditsRow defaultVrfName rows₁ name i b (b.1.filter (ipAddr ≠ ·), b.2) rows₂) :
    KeyedTable.SameRows rowKey rowValue rows₂ rows := by
  have hremoved := hadded.holds.remove hedits
  rw [Entries.remove_add hnew] at hremoved
  exact hremoved.sameRows h.holds

/-- The address that is added is there. -/
theorem mem_add : ipAddr ∈ (g.add name i ipAddr (name, i)).1 := by
  rw [Entries.add, Function.update_self]
  exact Finset.mem_insert_self _ _

end TableInv

section rows

open ServerRow

variable {α ι : Type} [ServerRow α ι] {defaultVrfName : CString} {rows : List α} {g : Entries ι}
  {name : CString}

/-- Rows of one key are at most one row. -/
theorem TableInv.filter_length_le (h : TableInv defaultVrfName rows g) {k : RowKey ι}
    {p : α → Bool} (hp : ∀ row ∈ rows, p row = true → rowKey row = k) :
    (rows.filter p).length ≤ 1 := by
  have hnodup : ((rows.filter p).map rowKey).Nodup :=
    h.holds.nodup.sublist (List.filter_sublist.map rowKey)
  have hall : ∀ key ∈ (rows.filter p).map rowKey, key = k := by
    intro key hkey
    have ⟨row, hrow, heq⟩ := List.mem_map.mp hkey
    have hmem := List.mem_filter.mp hrow
    rw [← heq, hp row hmem.1 hmem.2]
  rw [List.eq_replicate_of_mem hall, List.nodup_replicate, List.length_map] at hnodup
  exact hnodup

/-- The rows of an interface and an index have one key. -/
theorem TableInv.rowKey_eq (h : TableInv defaultVrfName rows g) {row : α} (hrow : row ∈ rows)
    (hport : port row = some name) :
    rowKey row = interfaceKey defaultVrfName name (index row) := by
  have ⟨name', hkey, _⟩ := h.holds.row hrow
  have hname := (Prod.mk.inj hkey).1
  rw [hport, Option.some_inj] at hname
  rw [hkey, hname]

theorem addressTotal_eq_sum :
    addressTotal rows name
      = ((rows.filter fun row => port row = some name).map
          fun row => (servers row).length).sum := by
  induction rows with
  | nil => rfl
  | cons row rows ih =>
    rw [addressTotal_cons, ih, List.filter_cons]
    by_cases hport : port row = some name
    · simp [hport]
    · simp [hport]

/-- The addresses of a row are distinct, not only their strings. -/
theorem TableInv.distinct (h : TableInv defaultVrfName rows g) {row : α} (hrow : row ∈ rows) :
    ((servers row).map Libc.inetPton).Nodup := by
  have ⟨name, _, hvalue⟩ := h.holds.row hrow
  have haccepted : ∀ server ∈ servers row, (Libc.inetPton server).isSome := by
    intro server hserver
    apply h.accepted (name, index row)
    rw [← Finset.mem_val, ← (Prod.mk.inj hvalue).1]
    exact hserver
  refine List.Nodup.map_on ?_ (h.holds.servers_nodup hrow)
  intro server hserver other _ heq
  have ⟨ip, hip⟩ := Option.isSome_iff_exists.mp (haccepted server hserver)
  exact Libc.inetPton_inj hip (heq.symm.trans hip)

/-- A row has an address or a gateway. -/
theorem TableInv.used (h : TableInv defaultVrfName rows g) {row : α} (hrow : row ∈ rows) :
    servers row ≠ [] ∨ (gateway row).isSome := by
  have hne := (h.holds.value hrow).2
  by_contra hempty
  rw [not_or, not_not, Option.not_isSome_iff_eq_none] at hempty
  apply hne
  unfold rowValue
  rw [hempty.1, hempty.2]
  rfl

end rows

/-! ## Runs -/

/-- The tables the commands write. -/
structure ServerTables where
  dhcpRelay : List DhcpRelayRow
  udpBcast : List UdpBcastForwarderRow

/-- The tables have the same rows, in any order and with the addresses in any order. -/
def ServerTables.Same (t t' : ServerTables) : Prop :=
  KeyedTable.SameRows rowKey rowValue t.dhcpRelay t'.dhcpRelay ∧
    KeyedTable.SameRows rowKey rowValue t.udpBcast t'.udpBcast

/-- A server of an interface: a helper address, or a forward-protocol server for a UDP port. -/
inductive Server
  | helperAddress (ipAddr : CString)
  | forwardProtocol (ipAddr : CString) (udpPort : ℤ)

/-- The commands; `set` tells them from their `no` forms. -/
inductive ServerCommand
  | server (server : Server) (set : Bool)
  | bootpGateway (gatewayAddress : CString) (set : Bool)

def Server.address : Server → CString
  | helperAddress ipAddr => ipAddr
  | forwardProtocol ipAddr _ => ipAddr

def ServerCommand.address : ServerCommand → CString
  | server s _ => s.address
  | bootpGateway gatewayAddress _ => gatewayAddress

/-- The table of the relay after a command, with the other one as it was. -/
def ServerTables.withRelay (t : ServerTables) (outcome : Outcome (List DhcpRelayRow)) :
    Outcome ServerTables :=
  ⟨outcome.out, outcome.result, outcome.written.map fun rows => { t with dhcpRelay := rows }⟩

/-- The table of the forwarder after a command, with the other one as it was. -/
def ServerTables.withForwarder (t : ServerTables)
    (outcome : Outcome (List UdpBcastForwarderRow)) : Outcome ServerTables :=
  ⟨outcome.out, outcome.result, outcome.written.map fun rows => { t with udpBcast := rows }⟩

/-- Runs a command on the tables. -/
def ServerCommand.exec (defaultVrfName : CString) (vty : Session) (t : ServerTables) :
    ServerCommand → Outcome ServerTables
  | server (.helperAddress ipAddr) set =>
    t.withRelay (dhcpRelayHelperaddressconfig defaultVrfName vty t.dhcpRelay ipAddr set)
  | server (.forwardProtocol ipAddr udpPort) set =>
    t.withForwarder (udpfwdServerconfig defaultVrfName vty t.udpBcast ipAddr udpPort set)
  | bootpGateway gatewayAddress set =>
    t.withRelay (dhcpRelayBootpGatewayConfig defaultVrfName vty t.dhcpRelay gatewayAddress set)

/-- The tables that runs of commands lead to from empty ones. What a command has committed, the
database may return in another order. -/
inductive ServerTables.Reachable (defaultVrfName : CString) : ServerTables → Prop
  | empty : Reachable defaultVrfName ⟨[], []⟩
  | exec {t t' : ServerTables} (h : Reachable defaultVrfName t) (command : ServerCommand)
      (vty : Session) (hready : vty.Ready defaultVrfName)
      (haddress : (Libc.inetPton command.address).isSome)
      (hcommits : ((command.exec defaultVrfName vty t).written.getD t).Same t') :
      Reachable defaultVrfName t'

/-- Both tables hold some entries. -/
structure ServerTables.Inv (defaultVrfName : CString) (t : ServerTables) (relay : Entries Unit)
    (forwarder : Entries ℤ) : Prop where
  relay : TableInv defaultVrfName t.dhcpRelay relay
  forwarder : TableInv defaultVrfName t.udpBcast forwarder

section runs

variable {defaultVrfName : CString} {t t' : ServerTables} {relay : Entries Unit}
  {forwarder : Entries ℤ} {vty : Session}

theorem ServerTables.Inv.same (h : t.Inv defaultVrfName relay forwarder) (hsame : t.Same t') :
    t'.Inv defaultVrfName relay forwarder :=
  ⟨h.relay.same hsame.1, h.forwarder.same hsame.2⟩

/-- A command keeps the invariant. -/
theorem ServerTables.Inv.exec (h : t.Inv defaultVrfName relay forwarder)
    (hready : vty.Ready defaultVrfName) {command : ServerCommand}
    (haddress : (Libc.inetPton command.address).isSome)
    (hexec : (command.exec defaultVrfName vty t).written = some t') :
    ∃ relay' forwarder', t'.Inv defaultVrfName relay' forwarder' := by
  -- each command edits one row of one table, and leaves the other table
  cases command with
  | server server set =>
    cases server with
    | helperAddress ipAddr =>
      have ⟨rows, hrows, heq⟩ := Option.map_eq_some_iff.mp hexec
      rw [← heq]
      cases set with
      | true =>
        have ⟨htotal, b, hfree, hedits⟩ := helperSet_written hready hrows
        exact ⟨_, _, (h.relay.add htotal haddress hfree hedits).2, h.forwarder⟩
      | false =>
        have ⟨b, hedits⟩ := helperUnset_written h.relay.holds hrows
        exact ⟨_, _, h.relay.remove hedits, h.forwarder⟩
    | forwardProtocol ipAddr udpPort =>
      have ⟨rows, hrows, heq⟩ := Option.map_eq_some_iff.mp hexec
      rw [← heq]
      cases set with
      | true =>
        have ⟨htotal, b, hfree, hedits⟩ := forwarderSet_written hready hrows
        exact ⟨_, _, h.relay, (h.forwarder.add htotal haddress hfree hedits).2⟩
      | false =>
        have ⟨b, hedits⟩ := forwarderUnset_written h.forwarder.holds hrows
        exact ⟨_, _, h.relay, h.forwarder.remove hedits⟩
  | bootpGateway gatewayAddress set =>
    have ⟨rows, hrows, heq⟩ := Option.map_eq_some_iff.mp hexec
    rw [← heq]
    cases set with
    | true =>
      have ⟨b, hedits⟩ := gatewaySet_written hready hrows
      exact ⟨_, _, h.relay.setGateway hedits, h.forwarder⟩
    | false =>
      have ⟨b, hedits⟩ := gatewayUnset_written hrows
      exact ⟨_, _, h.relay.setGateway hedits, h.forwarder⟩

/-- The tables of every run hold some entries. -/
theorem ServerTables.Reachable.inv (h : t.Reachable defaultVrfName) :
    ∃ relay forwarder, t.Inv defaultVrfName relay forwarder := by
  induction h with
  | empty => exact ⟨_, _, TableInv.empty, TableInv.empty⟩
  | @exec t t' h command vty hready haddress hcommits ih =>
    have ⟨relay, forwarder, hinv⟩ := ih
    cases hexec : (command.exec defaultVrfName vty t).written with
    | none =>
      rw [hexec] at hcommits
      exact ⟨relay, forwarder, hinv.same hcommits⟩
    | some written =>
      rw [hexec] at hcommits
      have ⟨relay', forwarder', hinv'⟩ := hinv.exec hready haddress hexec
      exact ⟨relay', forwarder', hinv'.same hcommits⟩

/-- How the tables look: one row for each interface, or for each interface and UDP port, at most
eight addresses of each kind for an interface, no address twice in a row, and no row without
use. -/
structure ServerTables.WellFormed (t : ServerTables) : Prop where
  one_relay_row : ∀ name, (t.dhcpRelay.filter fun row => row.port = some name).length ≤ 1
  one_forwarder_row : ∀ name udpPort, (t.udpBcast.filter fun row =>
    row.srcPort = some name ∧ row.udpDport = udpPort).length ≤ 1
  helpers_le : ∀ name, ((t.dhcpRelay.filter fun row => row.port = some name).map
    fun row => row.ipv4UcastServer.length).sum ≤ 8
  forwarders_le : ∀ name, ((t.udpBcast.filter fun row => row.srcPort = some name).map
    fun row => row.ipv4UcastServer.length).sum ≤ 8
  helpers_distinct : ∀ row ∈ t.dhcpRelay, (row.ipv4UcastServer.map Libc.inetPton).Nodup
  forwarders_distinct : ∀ row ∈ t.udpBcast, (row.ipv4UcastServer.map Libc.inetPton).Nodup
  forwarder_used : ∀ row ∈ t.udpBcast, row.ipv4UcastServer ≠ []
  relay_used : ∀ row ∈ t.dhcpRelay, row.ipv4UcastServer ≠ [] ∨ row.bootpGateway.isSome

/-- The tables are well formed in every run. -/
theorem wellFormed_of_reachable (h : t.Reachable defaultVrfName) : t.WellFormed := by
  -- one row for a key, then at most 8 addresses, distinct ones, and no row without use
  have ⟨relay, forwarder, hinv⟩ := h.inv
  constructor
  · intro name
    refine hinv.relay.filter_length_le (k := interfaceKey defaultVrfName name ()) ?_
    exact fun row hrow hport => hinv.relay.rowKey_eq hrow (of_decide_eq_true hport)
  · intro name udpPort
    refine hinv.forwarder.filter_length_le (k := interfaceKey defaultVrfName name udpPort) ?_
    intro row hrow hport
    have hspec := of_decide_eq_true hport
    rw [hinv.forwarder.rowKey_eq hrow hspec.1]
    exact congrArg (interfaceKey defaultVrfName name) hspec.2
  · intro name
    have hle := hinv.relay.total_le name
    rw [addressTotal_eq_sum] at hle
    exact hle
  · intro name
    have hle := hinv.forwarder.total_le name
    rw [addressTotal_eq_sum] at hle
    exact hle
  · exact fun row hrow => hinv.relay.distinct hrow
  · exact fun row hrow => hinv.forwarder.distinct hrow
  · exact fun row hrow => (hinv.forwarder.used hrow).resolve_right nofun
  · exact fun row hrow => hinv.relay.used hrow

/-- The session of an interface 1, with a transaction that commits. -/
def sessionOne : Session := ⟨['1'], [⟨['1'], none, []⟩], ["vrf".toList], committedTxn⟩

theorem sessionOne_ready : sessionOne.Ready "vrf".toList :=
  ⟨⟨_, List.mem_singleton_self _, rfl⟩, List.mem_singleton_self _⟩

/-- The tables with a helper address on interface 1. -/
def helperTables : ServerTables :=
  ⟨[⟨some ['1'], some "vrf".toList, none, ["10.0.0.2".toList]⟩], []⟩

theorem helperTables_reachable : helperTables.Reachable "vrf".toList :=
  .exec .empty (.server (.helperAddress "10.0.0.2".toList) true) sessionOne sessionOne_ready
    (by decide) ⟨List.Perm.refl _, List.Perm.refl _⟩

theorem wellFormed_of_reachable_helper : helperTables.WellFormed :=
  wellFormed_of_reachable helperTables_reachable

/-- Unsetting undoes setting: where setting a server on an interface is accepted, unsetting it
on the same interface is accepted as well, and restores the rows, their addresses and their
gateways. -/
theorem unset_restores (h : t.Reachable defaultVrfName) {server : Server} {t₁ w : ServerTables}
    {vty' : Session} (hready : vty.Ready defaultVrfName)
    (haddress : (Libc.inetPton server.address).isSome)
    (hset : ((ServerCommand.server server true).exec defaultVrfName vty t).written = some w)
    (hcommits : w.Same t₁) (hindex : vty'.index = vty.index) (htxn : vty'.txn = committedTxn) :
    ∃ w', ((ServerCommand.server server false).exec defaultVrfName vty' t₁).written = some w' ∧
      ∀ t₂, w'.Same t₂ → t₂.Same t := by
  have ⟨relay, forwarder, hinv⟩ := h.inv
  cases server with
  | helperAddress ipAddr =>
    have ⟨rows, hrows, heq⟩ := Option.map_eq_some_iff.mp hset
    rw [← heq] at hcommits
    have ⟨htotal, b, hfree, hedits⟩ := helperSet_written hready hrows
    have ⟨hnew, hadded⟩ := hinv.relay.add htotal haddress hfree hedits
    -- the order in which the database returns the rows does not matter to the entries
    have hadded₁ := hadded.same hcommits.1
    have ⟨rows', hrows'⟩ := helperUnset_accepted hadded₁.holds htxn
      (hindex ▸ TableInv.mem_add : ipAddr ∈ (relay.add vty.index () ipAddr (vty'.index, ())).1)
    have ⟨b', hedits'⟩ := helperUnset_written hadded₁.holds hrows'
    rw [hindex] at hedits'
    refine ⟨_, Option.map_eq_some_iff.mpr ⟨rows', hrows', rfl⟩, fun t₂ hsame => ?_⟩
    exact ⟨hsame.1.symm.trans (hinv.relay.restored hnew hadded₁ hedits'),
      (hcommits.2.trans hsame.2).symm⟩
  | forwardProtocol ipAddr udpPort =>
    have ⟨rows, hrows, heq⟩ := Option.map_eq_some_iff.mp hset
    rw [← heq] at hcommits
    have ⟨htotal, b, hfree, hedits⟩ := forwarderSet_written hready hrows
    have ⟨hnew, hadded⟩ := hinv.forwarder.add htotal haddress hfree hedits
    have hadded₁ := hadded.same hcommits.2
    have ⟨rows', hrows'⟩ := forwarderUnset_accepted hadded₁.holds htxn
      (hindex ▸ TableInv.mem_add :
        ipAddr ∈ (forwarder.add vty.index udpPort ipAddr (vty'.index, udpPort)).1)
    have ⟨b', hedits'⟩ := forwarderUnset_written hadded₁.holds hrows'
    rw [hindex] at hedits'
    refine ⟨_, Option.map_eq_some_iff.mpr ⟨rows', hrows', rfl⟩, fun t₂ hsame => ?_⟩
    exact ⟨(hcommits.1.trans hsame.1).symm,
      hsame.2.symm.trans (hinv.forwarder.restored hnew hadded₁ hedits')⟩

/-- The first helper address of interface 1 is set and unset. -/
theorem unset_restores_helper :
    ∃ w', ((ServerCommand.server (.helperAddress "10.0.0.2".toList) false).exec "vrf".toList
        sessionOne helperTables).written = some w' ∧
      ∀ t₂, w'.Same t₂ → t₂.Same ⟨[], []⟩ :=
  @unset_restores "vrf".toList ⟨[], []⟩ sessionOne .empty (.helperAddress "10.0.0.2".toList)
    helperTables helperTables sessionOne sessionOne_ready (by decide) rfl
    ⟨List.Perm.refl _, List.Perm.refl _⟩ rfl rfl

end runs

end Vty
end Udpfwd
end IpApps
