import IpApps.Udpfwd.TableReports

/-!
# Reconfigurations that follow the tables

`udpfwd_reconfigure` looks at what has changed in the tables and edits the cache. Where the cache
agreed with the tables as they were, it agrees with the tables as they are, unless the change is
one that the handlers do not cope with. `Gentle` leaves these changes out: they are about names
that begin with one another, about addresses that two servers of an interface share, about all
servers of an interface being replaced at once, and about arrays that would overflow on the way.
-/

namespace IpApps
namespace Udpfwd

open ExceptLoops Vty Vty.ServerRow

/-! ## Changes that the handlers cope with -/

/-- The tables at a call. -/
def TableChanges.tables (changes : TableChanges) : ServerTables :=
  ⟨changes.dhcpRelay.current, changes.udpBcastForwarder.current⟩

/-- The keys of the rows that have not been deleted. -/
structure Survivors where
  relay : RowKey Unit → Prop
  forwarder : RowKey ℤ → Prop

/-- What is reported about the tables. -/
structure Polled (t : ServerTables) (survivors : Survivors) (changes : TableChanges) : Prop where
  relay : Reports t.dhcpRelay survivors.relay changes.dhcpRelay
  servers : ReportsColumn helpers 0 t.dhcpRelay survivors.relay changes.dhcpRelay
    changes.modified.ipv4UcastServer
  gateway : ReportsColumn DhcpRelayRow.bootpGateway none t.dhcpRelay survivors.relay
    changes.dhcpRelay changes.modified.otherConfig
  forwarder : Reports t.udpBcast survivors.forwarder changes.udpBcastForwarder

/-- A change from `old` to `new` that the handlers cope with. -/
structure Gentle (defaultVrfName : CString) (survivors : Survivors) (old new : Config) : Prop where
  /-- A relay row that goes leaves no row of an interface with which its name begins. -/
  relayPrefix : ∀ name name', name' <+: name → old.relay (name, ()) ≠ (∅, none) →
    new.relay (name, ()) = (∅, none) → new.relay (name', ()) = (∅, none)
  /-- A relay row in the place of another one has what that one had, with other values. -/
  recreated : ∀ name, ¬survivors.relay (interfaceKey defaultVrfName name ()) →
    new.relay (name, ()) ≠ (∅, none) →
    ((old.relay (name, ())).1 ≠ ∅ → (new.relay (name, ())).1 ≠ ∅) ∧
      ((old.relay (name, ())).2 ≠ none → (new.relay (name, ())).2 ≠ none)
  /-- A new helper does not have the address of a forward-protocol server. -/
  shared : ∀ name id, Lists new.relay name () id →
    Lists old.relay name () id ∨ ∀ k, old.Serves name k → k.1 ≠ id
  /-- An interface does not lose all its servers before it is given the helpers. -/
  helperLeft : ∀ name, new.gateway name = 0 → (∃ k, old.Serves name k) →
    (∀ k, old.Serves name k → k.2 = dhcpsPort ∧ ¬Lists new.relay name () k.1) →
    ∀ id, ¬Lists new.relay name () id
  /-- A full array does not lose all its servers at once. -/
  staleRoom : ∀ name, new.relay (name, ()) ≠ (∅, none) →
    AtMost 15 fun k => old.Serves name k ∧ ¬Lists new.relay name () k.1
  /-- A server that goes is not listed for an interface with which the name begins, unless its
  port has other servers. -/
  forwarderPrefix : ∀ name name' k, name' <+: name → old.Serves name k → k.2 ≠ dhcpsPort →
    new.Serves name' k → (new.forwarder (name, k.2.toNat)).1 ≠ ∅
  /-- An interface does not lose all its servers before it is given those of a port. -/
  forwarderLeft : ∀ name, new.gateway name = 0 → (∀ id, ¬Lists new.relay name () id) →
    (∀ k, old.Serves name k → k.2 ≠ dhcpsPort → ¬new.Serves name k) →
    ∀ udpPort, udpPort ≠ dhcpsPort → (∃ id, old.Serves name (id, udpPort)) →
      ∀ id, ¬new.Serves name (id, udpPort)
  /-- The old and the new servers of an interface fit into the array together. -/
  room : ∀ name, AtMost maxUdpBcastServerPerInterface fun k =>
    new.Serves name k ∨
      (old.Serves name k ∧ k.2 ≠ dhcpsPort ∧ (new.forwarder (name, k.2.toNat)).1 ≠ ∅)

/-- A call in a state that agrees with the tables as they were. -/
structure PollInput (defaultVrfName : CString) (ports : Finset CString) (t : ServerTables)
    (survivors : Survivors) (changes : TableChanges) (old new : Config) : Prop where
  few : ports.card ≤ 65535
  oldInv : t.Inv defaultVrfName old.relay old.forwarder
  newInv : changes.tables.Inv defaultVrfName new.relay new.forwarder
  proper : new.Proper ports
  polled : Polled t survivors changes
  gentle : Gentle defaultVrfName survivors old new

/-! ## Entries and servers -/

section entries

variable {ι : Type} {g before after : Entries ι} {name : CString} {i : ι}

theorem not_lists_of_empty (h : (g (name, i)).1 = ∅) (id : IpAddress) : ¬Lists g name i id := by
  rintro ⟨server, hserver, _⟩
  rw [h] at hserver
  exact Finset.notMem_empty server hserver

theorem lists_congr (h : (before (name, i)).1 = (after (name, i)).1) (id : IpAddress) :
    Lists before name i id ↔ Lists after name i id := by
  unfold Lists
  rw [h]

theorem Config.gateway_congr {g g' : Config}
    (h : (g.relay (name, ())).2 = (g'.relay (name, ())).2) :
    g.gateway name = g'.gateway name := by
  unfold Config.gateway
  rw [h]

theorem Config.gateway_of_none {g : Config} (h : (g.relay (name, ())).2 = none) :
    g.gateway name = 0 := by
  unfold Config.gateway
  rw [h]
  rfl

/-- The gateway that the handler sets is the one configured. -/
theorem changedBootpGw_eq {g : Config} {ports : Finset CString} (h : g.Proper ports)
    (bootpGw : IpAddress) :
    changedBootpGw (g.relay (name, ())).2 bootpGw = g.gateway name := by
  unfold changedBootpGw Config.gateway
  cases hgw : (g.relay (name, ())).2 with
  | none => rfl
  | some gw =>
    obtain ⟨id, hid⟩ := Option.isSome_iff_exists.mp (h.gateways name gw hgw)
    rw [Option.bind_some]
    dsimp only
    rw [hid]
    rfl

end entries

/-- The servers of an interface when the relay table has been carried out. -/
def relayDone (old new : Config) (name : CString) (k : ServerKey) : Prop :=
  (k.2 = dhcpsPort ∧ Lists new.relay name () k.1) ∨ (k.2 ≠ dhcpsPort ∧ old.Serves name k)

section relay

variable {defaultVrfName : CString} {ports : Finset CString} {t : ServerTables}
  {survivors : Survivors} {changes : TableChanges} {old new : Config} {s : State}

/-! ## The relay table -/

/-- The search for servers without a row takes the helpers and the gateway from the interfaces
without a row. -/
theorem PollInput.relay_delete (h : PollInput defaultVrfName ports t survivors changes old new)
    (hs : Within ports s) (hagrees : Agrees s old) :
    ∃ s', (if changes.dhcpRelay.looksForOrphans
        then [HandlerCall.dhcpRelayRowDelete changes.dhcpRelay.current] else []).foldlM
          HandlerCall.apply s = .ok s' ∧ Within ports s' ∧
      ∀ name, (new.relay (name, ()) ≠ (∅, none) →
          Shows (s'.shown name) (old.Serves name) (old.gateway name)) ∧
        (new.relay (name, ()) = (∅, none) →
          Shows (s'.shown name) (relayDone old new name) (new.gateway name)) := by
  -- an interface that had no row is as it should be without one
  have hnone : ∀ (s' : State) name, s'.shown name = s.shown name →
      old.relay (name, ()) = (∅, none) → new.relay (name, ()) = (∅, none) →
      Shows (s'.shown name) (relayDone old new name) (new.gateway name) := by
    intro s' name hsame hold hnew
    have hshows := hagrees name
    rw [hsame]
    refine ⟨fun k => ?_, ?_⟩
    · rw [hshows.mem]
      unfold relayDone Config.Serves
      have holdnot := not_lists_of_empty (Prod.mk.inj hold).1 k.1
      have hnewnot := not_lists_of_empty (Prod.mk.inj hnew).1 k.1
      tauto
    · rw [hshows.gateway, Config.gateway_of_none (Prod.mk.inj hold).2,
        Config.gateway_of_none (Prod.mk.inj hnew).2]
  cases hlooks : changes.dhcpRelay.looksForOrphans with
  | false =>
    refine ⟨s, rfl, hs, fun name => ⟨fun _ => hagrees name, fun hnew => ?_⟩⟩
    refine hnone s name rfl ?_ hnew
    by_contra hold
    exact h.polled.relay.entry_kept h.oldInv.relay h.newInv.relay hlooks hold hnew
  | true =>
    obtain ⟨s', hrun, hs', hintf⟩ := hs.dhcpRelayRowDelete changes.dhcpRelay.current fun name =>
      ((atMost_helpers h.oldInv.relay name).le (by decide)).mono fun k hk => by
        have hserves := (hagrees name).mem k |>.mp hk.1
        rcases hserves with hhelper | hforward
        · exact hhelper
        · exact absurd hk.2 hforward.1
    refine ⟨s', ?_, hs', fun name => ⟨fun hne => ?_, fun hempty => ?_⟩⟩
    · rw [if_pos rfl, List.foldlM_cons, HandlerCall.apply, hrun]
      rfl
    · -- the row of the interface is found
      obtain ⟨row, hrow, hkey⟩ := h.newInv.relay.exists_row hne
      have hfound : DhcpRelayPrefixRow changes.dhcpRelay.current name :=
        ⟨row, hrow, name, (Prod.mk.inj hkey).1, List.prefix_refl name⟩
      rw [shown_of_interface ((hintf name).1 hfound)]
      exact hagrees name
    · by_cases hfound : DhcpRelayPrefixRow changes.dhcpRelay.current name
      · refine hnone s' name (shown_of_interface ((hintf name).1 hfound)) ?_ hempty
        by_contra hold
        obtain ⟨row, hrow, name', hport, hprefix⟩ := hfound
        have hkey := h.newInv.relay.rowKey_eq hrow hport
        exact h.newInv.relay.entry_ne hrow hkey
          (h.gentle.relayPrefix name name' hprefix hold hempty)
      · obtain ⟨hservers, hgw⟩ := (hintf name).2 hfound
        refine ⟨fun k => ?_, ?_⟩
        · unfold State.shown relayDone
          rw [hservers, Multiset.mem_filter]
          have hmem : k ∈ s.serversOf name ↔ old.Serves name k := (hagrees name).mem k
          have hnot := not_lists_of_empty (Prod.mk.inj hempty).1 k.1
          rw [hmem]
          tauto
        · unfold State.shown
          rw [hgw, Config.gateway_of_none (Prod.mk.inj hempty).2]

/-- The gateway that a visit sets is the one configured. -/
theorem PollInput.relay_gateway (h : PollInput defaultVrfName ports t survivors changes old new)
    {r : IdlRow DhcpRelayRow} (hr : r ∈ changes.dhcpRelay.rows)
    (hchanged : r.row ∈ changes.dhcpRelay.changed) {name : CString}
    (hkey : rowKey r.row = interfaceKey defaultVrfName name ())
    (hgateway : (s.shown name).2 = old.gateway name) :
    dhcpRelayBootpGw s r.row changes.modified name = new.gateway name := by
  have hcurrent := current_of_changed hchanged
  have hne := h.newInv.relay.entry_ne hcurrent hkey
  have hvalue : r.row.bootpGateway = (new.relay (name, ())).2 :=
    (Prod.mk.inj (h.newInv.relay.holds.value_of_key hcurrent hkey)).2
  unfold dhcpRelayBootpGw
  cases hflag : changes.modified.otherConfig with
  | true =>
    rw [if_pos rfl, hvalue]
    exact changedBootpGw_eq h.proper _
  | false =>
    have hsame := h.polled.gateway.gateway_eq h.polled.relay h.oldInv.relay h.newInv.relay
      (fun hfresh => (h.gentle.recreated name hfresh hne).2) hflag hr hkey
    rw [if_neg Bool.false_ne_true, ← Config.gateway_congr hsame]
    exact hgateway

/-- The row of an interface finds room for its helpers, whose addresses no other server has, and
does not empty the interface on the way. -/
theorem PollInput.relay_fits (h : PollInput defaultVrfName ports t survivors changes old new)
    {name : CString} (hne : new.relay (name, ()) ≠ (∅, none))
    (hheld : ∀ k, k ∈ s.serversOf name ↔ old.Serves name k) {ids : List IpAddress}
    (hids : ∀ id, id ∈ ids ↔ Lists new.relay name () id) :
    RelayFits s name (new.gateway name) ids := by
  refine ⟨?_, ?_, ?_, ?_⟩
  · refine (h.gentle.staleRoom name hne).mono fun k hk => ?_
    rw [hheld, hids] at hk
    exact hk
  · intro hzero hnonempty hall
    obtain ⟨k, hk⟩ := Multiset.exists_mem_of_ne_zero hnonempty
    have hnone := h.gentle.helperLeft name hzero ⟨k, (hheld k).mp hk⟩ fun k hk => by
      have hcase := hall k ((hheld k).mpr hk)
      rw [hids] at hcase
      exact hcase
    rw [List.eq_nil_iff_forall_not_mem]
    exact fun id hid => hnone id ((hids id).mp hid)
  · intro id hid
    rw [hheld, Config.serves_helper]
    refine (h.gentle.shared name id ((hids id).mp hid)).imp_right ?_
    exact fun hother k hk => hother k ((hheld k).mp hk)
  · refine ((atMost_helpers h.newInv.relay name).union
      (atMost_forwarders h.oldInv.forwarder name)).mono fun k hk => ?_
    rw [hids, hheld] at hk
    refine hk.imp_right fun hforward => ⟨hforward.1, ?_⟩
    exact (Config.serves_forward hforward.1).mp hforward.2

/-- A visit gives an interface its helpers and its gateway. -/
theorem PollInput.relay_visit (h : PollInput defaultVrfName ports t survivors changes old new)
    (hs : Within ports s) {row : DhcpRelayRow} (hrow : row ∈ changes.dhcpRelay.changed)
    {name : CString} (hport : row.port = some name)
    (hshows : Shows (s.shown name) (old.Serves name) (old.gateway name)) :
    ∃ s', udpfwdHandleDhcpRelayConfigChange s row changes.modified = .ok s' ∧ Within ports s' ∧
      Shows (s'.shown name) (relayDone old new name) (new.gateway name) ∧
      ∀ other, other ≠ name → s'.shown other = s.shown other := by
  obtain ⟨r, hr, hchanged, rfl⟩ := mem_changed.mp hrow
  have hcurrent := current_of_changed hrow
  have hkey := h.newInv.relay.rowKey_eq hcurrent hport
  have hne := h.newInv.relay.entry_ne hcurrent hkey
  have hname : name ∈ ports := by
    by_contra hnot
    exact hne (h.proper.relay name hnot)
  have hvrf : r.row.vrf = some defaultVrfName := (Prod.mk.inj (Prod.mk.inj hkey).2).1
  have hids : ∀ id, id ∈ validAddresses r.row.ipv4UcastServer ↔ Lists new.relay name () id :=
    fun id => h.newInv.relay.mem_validAddresses hcurrent hkey
  have hheld : ∀ k, k ∈ s.serversOf name ↔ old.Serves name k := hshows.mem
  have hgateway := h.relay_gateway hr hrow hkey hshows.gateway
  obtain ⟨s', hrun, hs', hgw', hmem', hframe⟩ := hs.dhcpRelayConfigChange h.few hport hvrf hname
    (h.newInv.relay.length_le hcurrent) (h.newInv.relay.nodup_validAddresses hcurrent)
    fun _ => hgateway ▸ h.relay_fits hne hheld hids
  refine ⟨s', hrun, hs', ⟨fun k => ?_, hgw'.trans hgateway⟩, fun other hother =>
    shown_of_interface (hframe other hother)⟩
  unfold State.shown relayDone
  rw [hmem']
  cases hflag : changes.modified.ipv4UcastServer with
  | true => rw [if_pos rfl, hids, hheld]
  | false =>
    -- the helpers are those the interface had
    have hsame := h.polled.servers.helpers_eq h.polled.relay h.oldInv.relay h.newInv.relay
      (fun hfresh => (h.gentle.recreated name hfresh hne).1) hflag hr hkey
    rw [if_neg Bool.false_ne_true, hheld, ← lists_congr hsame]
    unfold Config.Serves
    tauto

/-- The interface of a relay row. -/
def relayInterface (row : DhcpRelayRow) : CString :=
  row.port.getD []

/-- A relay row that is visited is the row of its interface. -/
theorem PollInput.relay_row (h : PollInput defaultVrfName ports t survivors changes old new)
    {row : DhcpRelayRow} (hrow : row ∈ changes.dhcpRelay.changed) :
    row.port = some (relayInterface row) ∧
      rowKey row = interfaceKey defaultVrfName (relayInterface row) () := by
  obtain ⟨name, hkey, _⟩ := h.newInv.relay.holds.row (current_of_changed hrow)
  have hport : row.port = some name := (Prod.mk.inj hkey).1
  have hname : relayInterface row = name := congrArg (Option.getD · []) hport
  rw [hname]
  exact ⟨hport, hkey⟩

/-- No interface is visited twice. -/
theorem PollInput.relay_nodup (h : PollInput defaultVrfName ports t survivors changes old new) :
    (changes.dhcpRelay.changed.map relayInterface).Nodup := by
  have hkeys := nodup_changed h.newInv.relay
  refine List.Nodup.map_on ?_ hkeys.of_map
  intro row hrow row' hrow' heq
  refine List.inj_on_of_nodup_map hkeys hrow hrow' ?_
  rw [(h.relay_row hrow).2, (h.relay_row hrow').2, heq]

/-- An interface that is not visited has the row it had. -/
theorem PollInput.relay_unvisited (h : PollInput defaultVrfName ports t survivors changes old new)
    {name : CString} {v : Multiset ServerKey × IpAddress}
    (hrow : new.relay (name, ()) ≠ (∅, none))
    (hshows : Shows v (old.Serves name) (old.gateway name))
    (hmem : name ∉ changes.dhcpRelay.changed.map relayInterface) :
    Shows v (relayDone old new name) (new.gateway name) := by
  obtain ⟨r, hr, hkey⟩ := (entry_ne_iff h.newInv.relay).mp hrow
  have hport : r.row.port = some name := (Prod.mk.inj hkey).1
  have hentry := h.polled.relay.entry_eq h.oldInv.relay h.newInv.relay hr hkey fun hchanged =>
    hmem (List.mem_map.mpr ⟨r.row, hchanged, congrArg (Option.getD · []) hport⟩)
  refine ⟨fun k => ?_, ?_⟩
  · rw [hshows.mem, relayDone, ← lists_congr (congrArg Prod.fst hentry)]
    unfold Config.Serves
    tauto
  · rw [hshows.gateway]
    exact Config.gateway_congr (congrArg Prod.snd hentry)

/-- After the visits the relay table has been carried out. -/
theorem PollInput.relay_visits (h : PollInput defaultVrfName ports t survivors changes old new)
    (hs : Within ports s)
    (hshows : ∀ name, (new.relay (name, ()) ≠ (∅, none) →
        Shows (s.shown name) (old.Serves name) (old.gateway name)) ∧
      (new.relay (name, ()) = (∅, none) →
        Shows (s.shown name) (relayDone old new name) (new.gateway name))) :
    ∃ s', changes.dhcpRelay.changed.foldlM
        (fun s row => udpfwdHandleDhcpRelayConfigChange s row changes.modified) s = .ok s' ∧
      Within ports s' ∧
      ∀ name, Shows (s'.shown name) (relayDone old new name) (new.gateway name) := by
  -- a visited row has its servers as the deletion left them until its visit
  let good : DhcpRelayRow → Multiset ServerKey × IpAddress → Prop := fun row v =>
    row ∈ changes.dhcpRelay.changed ∧
      Shows v (old.Serves (relayInterface row)) (old.gateway (relayInterface row))
  let done : DhcpRelayRow → Multiset ServerKey × IpAddress → Prop := fun row v =>
    Shows v (relayDone old new (relayInterface row)) (new.gateway (relayInterface row))
  have hgood : ∀ row ∈ changes.dhcpRelay.changed, good row (s.shown (relayInterface row)) :=
    fun row hrow => ⟨hrow, (hshows _).1
      (h.newInv.relay.entry_ne (current_of_changed hrow) (h.relay_row hrow).2)⟩
  -- no two rows of the report are for one interface, so each visit is the only one
  obtain ⟨s', hrun, hs', hvisited, hothers⟩ := @foldlM_walk _ _ _ _ _ _ relayInterface State.shown
    (Within ports) good (fun _ _ => False) (fun row _ v => done row v)
    (fun s row hs hgood _ => h.relay_visit hs hgood.1 (h.relay_row hgood.1).1 hgood.2)
    changes.dhcpRelay.changed s h.relay_nodup hs hgood fun _ _ hfalse => hfalse
  refine ⟨s', hrun, hs', fun name => ?_⟩
  by_cases hmem : name ∈ changes.dhcpRelay.changed.map relayInterface
  · obtain ⟨row, hrow, rfl⟩ := List.mem_map.mp hmem
    exact hvisited row hrow
  · rw [hothers name hmem]
    by_cases hempty : new.relay (name, ()) = (∅, none)
    · exact (hshows name).2 hempty
    · exact h.relay_unvisited hempty ((hshows name).1 hempty) hmem

end relay

/-! ## The forwarder table -/

/-- The servers of an interface while the forwarder table is carried out: the helpers are those
of the relay table, and on a port that a row is about there are old and new servers, among them
those that are both. -/
structure Between (old new : Config) (name : CString) (v : Multiset ServerKey × IpAddress) :
    Prop where
  gateway : v.2 = new.gateway name
  helper : ∀ k, k.2 = dhcpsPort → (k ∈ v.1 ↔ new.Serves name k)
  upper : ∀ k, k.2 ≠ dhcpsPort → k ∈ v.1 → old.Serves name k ∨ new.Serves name k
  used : ∀ k, k.2 ≠ dhcpsPort → k ∈ v.1 → (new.forwarder (name, k.2.toNat)).1 ≠ ∅
  lower : ∀ k, k.2 ≠ dhcpsPort → old.Serves name k → new.Serves name k → k ∈ v.1

section forwarder

variable {defaultVrfName : CString} {ports : Finset CString} {t : ServerTables}
  {survivors : Survivors} {changes : TableChanges} {old new : Config} {s : State}

/-- An entry of the forwarder table has no gateway. -/
theorem forwarder_entry_ne {rows : List UdpBcastForwarderRow} {g : Entries ℤ} {name : CString}
    {i : ℤ} (h : TableInv defaultVrfName rows g) (hne : g (name, i) ≠ (∅, none)) :
    (g (name, i)).1 ≠ ∅ := by
  obtain ⟨row, hrow, hkey⟩ := h.exists_row hne
  have hnone : none = (g (name, i)).2 := (Prod.mk.inj (h.holds.value_of_key hrow hkey)).2
  exact fun hempty => hne (Prod.ext hempty hnone.symm)

/-- A server is listed in an entry. -/
theorem Config.Serves.entry_ne {g : Config} {name : CString} {k : ServerKey}
    (h : g.Serves name k) (hport : k.2 ≠ dhcpsPort) :
    (g.forwarder (name, k.2.toNat)).1 ≠ ∅ :=
  fun hempty => not_lists_of_empty hempty k.1 ((Config.serves_forward hport).mp h)

/-- A row of the forwarder table is about a port of an interface. -/
theorem PollInput.forwarder_row (h : PollInput defaultVrfName ports t survivors changes old new)
    {row : UdpBcastForwarderRow} (hrow : row ∈ changes.udpBcastForwarder.current) :
    ∃ name udpPort, row.srcPort = some name ∧ row.destVrf = some defaultVrfName ∧
      row.udpDport = udpPort.toNat ∧ udpPort ≠ dhcpsPort ∧ name ∈ ports ∧
      ∀ k : ServerKey, k.2 = udpPort →
        (k.1 ∈ validAddresses row.ipv4UcastServer ↔ new.Serves name k) := by
  obtain ⟨name, hkey, _⟩ := h.newInv.forwarder.holds.row hrow
  have hne := forwarder_entry_ne h.newInv.forwarder (h.newInv.forwarder.entry_ne hrow hkey)
  obtain ⟨udpPort, hnumber, hport⟩ := h.proper.number name _ hne
  have hnumber : row.udpDport = udpPort.toNat := hnumber
  refine ⟨name, udpPort, (Prod.mk.inj hkey).1, (Prod.mk.inj (Prod.mk.inj hkey).2).1, hnumber,
    hport, ?_, fun k hk => ?_⟩
  · by_contra hnot
    exact hne (h.proper.forwarder name _ hnot)
  · have hmem : k.1 ∈ validAddresses row.ipv4UcastServer ↔
        Lists new.forwarder name row.udpDport k.1 := h.newInv.forwarder.mem_validAddresses hrow hkey
    rw [hmem, hnumber, ← hk, Config.serves_forward (hk ▸ hport)]

/-- The search for servers without a row leaves servers on the ports with a row only. -/
theorem PollInput.forwarder_delete (h : PollInput defaultVrfName ports t survivors changes old new)
    (hs : Within ports s)
    (hshows : ∀ name, Shows (s.shown name) (relayDone old new name) (new.gateway name)) :
    ∃ s', (if changes.udpBcastForwarder.looksForOrphans
        then [HandlerCall.udpBcastForwarderRowDelete changes.udpBcastForwarder.current]
        else []).foldlM HandlerCall.apply s = .ok s' ∧ Within ports s' ∧
      ∀ name, Between old new name (s'.shown name) := by
  have hmem : ∀ name k, k ∈ s.serversOf name ↔ relayDone old new name k :=
    fun name => (hshows name).mem
  have hforward : ∀ name k, k.2 ≠ dhcpsPort → (k ∈ s.serversOf name ↔ old.Serves name k) := by
    intro name k hport
    rw [hmem]
    unfold relayDone
    rw [or_iff_right fun hcase => hport hcase.1, and_iff_right hport]
  have hhelper : ∀ name k, k.2 = dhcpsPort → (k ∈ s.serversOf name ↔ new.Serves name k) := by
    intro name k hport
    rw [hmem]
    unfold relayDone Config.Serves
    tauto
  cases hlooks : changes.udpBcastForwarder.looksForOrphans with
  -- no row went, so every port that has a server has a row still
  | false =>
    refine ⟨s, rfl, hs, fun name => ⟨(hshows name).gateway, hhelper name, ?_, ?_, ?_⟩⟩
    · exact fun k hport hk => Or.inl ((hforward name k hport).mp hk)
    · intro k hport hk
      have hold := ((hforward name k hport).mp hk).entry_ne hport
      refine forwarder_entry_ne h.newInv.forwarder ?_
      refine h.polled.forwarder.entry_kept h.oldInv.forwarder h.newInv.forwarder hlooks ?_
      exact fun hempty => hold (congrArg Prod.fst hempty)
    · exact fun k hport hold _ => (hforward name k hport).mpr hold
  | true =>
    obtain ⟨s', hrun, hs', hintf⟩ :=
      hs.udpBcastForwarderRowDelete changes.udpBcastForwarder.current fun name =>
        ((atMost_forwarders h.oldInv.forwarder name).le (by decide)).mono fun k hk =>
          ⟨hk.2, (Config.serves_forward hk.2).mp ((hforward name k hk.2).mp hk.1)⟩
    have hmem' : ∀ name k, k ∈ s'.serversOf name ↔ k ∈ s.serversOf name ∧
        ¬UdpBcastForwarderOrphan changes.udpBcastForwarder.current name k := by
      intro name k
      rw [(hintf name).1, Multiset.mem_filter]
    -- after the run: the helpers, then what is held beyond the rows, and the rows themselves
    refine ⟨s', ?_, hs', fun name => ⟨(hintf name).2.trans (hshows name).gateway, ?_, ?_, ?_, ?_⟩⟩
    · rw [if_pos rfl, List.foldlM_cons, HandlerCall.apply, hrun]
      rfl
    · intro k hport
      unfold State.shown
      rw [hmem', ← hhelper name k hport]
      exact and_iff_left fun horphan => horphan.1 hport
    · exact fun k hport hk => Or.inl ((hforward name k hport).mp ((hmem' name k).mp hk).1)
    · -- the row that was found is about the port, for this interface or for its prefix
      intro k hport hk
      obtain ⟨hheld, hnot⟩ := (hmem' name k).mp hk
      have hloosely : LooselyConfigured changes.udpBcastForwarder.current name k :=
        not_not.mp fun hcase => hnot ⟨hport, hcase⟩
      obtain ⟨row, hrow, hfitsName, hdport, hid⟩ := hloosely
      obtain ⟨name', udpPort, hsrc, _, hnumber, _, _, hids⟩ := h.forwarder_row hrow
      have heq : k.2 = udpPort := by
        rw [hdport, Nat.cast_inj, UInt16.toNat_inj] at hnumber
        exact hnumber
      exact h.gentle.forwarderPrefix name name' k (hfitsName name' hsrc)
        ((hforward name k hport).mp hheld) hport ((hids k heq).mp hid)
    · intro k hport hold hnew
      refine (hmem' name k).mpr ⟨(hforward name k hport).mpr hold, fun horphan => horphan.2 ?_⟩
      obtain ⟨row, hrow, hkey, hid⟩ := h.newInv.forwarder.exists_row_of_lists
        ((Config.serves_forward hport).mp hnew)
      refine Configured.loosely _ ⟨row, hrow, (Prod.mk.inj hkey).1, ?_, hid⟩
      exact (Prod.mk.inj (Prod.mk.inj hkey).2).2

/-- The row of a port finds room for its servers, and does not empty the interface on the way. -/
theorem PollInput.forwarder_fits (h : PollInput defaultVrfName ports t survivors changes old new)
    {name : CString} (hb : Between old new name (s.shown name)) {udpPort : UInt16}
    (hport : udpPort ≠ dhcpsPort) {ids : List IpAddress}
    (hids : ∀ k : ServerKey, k.2 = udpPort → (k.1 ∈ ids ↔ new.Serves name k)) :
    ForwarderFits s name udpPort ids := by
  -- the servers held and those of the row are old and new ones
  have hall : ∀ k, (k.2 = udpPort ∧ k.1 ∈ ids) ∨ (k.2 ≠ udpPort ∧ k ∈ s.serversOf name) →
      new.Serves name k ∨
        (old.Serves name k ∧ k.2 ≠ dhcpsPort ∧ (new.forwarder (name, k.2.toNat)).1 ≠ ∅) := by
    rintro k (⟨heq, hid⟩ | ⟨_, hheld⟩)
    · exact Or.inl ((hids k heq).mp hid)
    · by_cases hhelper : k.2 = dhcpsPort
      · exact Or.inl ((hb.helper k hhelper).mp hheld)
      · rcases hb.upper k hhelper hheld with hold | hnew
        · exact Or.inr ⟨hold, hhelper, hb.used k hhelper hheld⟩
        · exact Or.inl hnew
  -- what is held on the port and is not in the row is old
  have hstale : ∀ k, k ∈ s.serversOf name → k.2 = udpPort → k.1 ∉ ids →
      k.2 ≠ dhcpsPort ∧ old.Serves name k := by
    intro k hk heq hid
    have hk2 : k.2 ≠ dhcpsPort := heq ▸ hport
    refine ⟨hk2, (hb.upper k hk2 hk).resolve_right ?_⟩
    exact fun hnew => hid ((hids k heq).mpr hnew)
  refine ⟨?_, ?_, (h.gentle.room name).mono hall⟩
  · refine ((atMost_forwarders h.oldInv.forwarder name).le (by decide)).mono fun k hk => ?_
    obtain ⟨hk2, hold⟩ := hstale k hk.1 hk.2.1 hk.2.2
    exact ⟨hk2, (Config.serves_forward hk2).mp hold⟩
  · intro hzero hnonempty hgone
    obtain ⟨k, hk⟩ := Multiset.exists_mem_of_ne_zero hnonempty
    obtain ⟨heq, hid⟩ := hgone k hk
    have hnone := h.gentle.forwarderLeft name (hb.gateway.symm.trans hzero)
      (fun id hid => ?_) (fun k' hold hk' hnew => ?_) udpPort hport
      ⟨k.1, heq ▸ (hstale k hk heq hid).2⟩
    · rw [List.eq_nil_iff_forall_not_mem]
      exact fun id hid => hnone id ((hids (id, udpPort) rfl).mp hid)
    · have hheld := (hb.helper (id, dhcpsPort) rfl).mpr ((Config.serves_helper new name).mpr hid)
      exact hport (hgone _ hheld).1.symm
    · have hcase := hgone k' (hb.lower k' hk' hold hnew)
      exact hcase.2 ((hids k' hcase.1).mpr hnew)

/-- When a port has its new servers, and the other ports have what they had, the interface is
still between the tables. -/
theorem Between.visited {name : CString} {v v' : Multiset ServerKey × IpAddress} {udpPort : UInt16}
    (hb : Between old new name v) (hport : udpPort ≠ dhcpsPort) (hgateway : v'.2 = v.2)
    (hself : ∀ k, k.2 = udpPort → (k ∈ v'.1 ↔ new.Serves name k))
    (hothers : ∀ k, k.2 ≠ udpPort → (k ∈ v'.1 ↔ k ∈ v.1)) : Between old new name v' where
  gateway := hgateway.trans hb.gateway
  helper := fun k hhelper => by
    rw [← hb.helper k hhelper]
    exact hothers k fun hcase => hport (hcase.symm.trans hhelper)
  upper := fun k hk2 hk => by
    by_cases hcase : k.2 = udpPort
    · exact Or.inr ((hself k hcase).mp hk)
    · exact hb.upper k hk2 ((hothers k hcase).mp hk)
  used := fun k hk2 hk => by
    by_cases hcase : k.2 = udpPort
    · exact ((hself k hcase).mp hk).entry_ne hk2
    · exact hb.used k hk2 ((hothers k hcase).mp hk)
  lower := fun k hk2 hold hnew => by
    by_cases hcase : k.2 = udpPort
    · exact (hself k hcase).mpr hnew
    · exact (hothers k hcase).mpr (hb.lower k hk2 hold hnew)

/-- A visit gives an interface the servers on a port. -/
theorem PollInput.forwarder_visit (h : PollInput defaultVrfName ports t survivors changes old new)
    (hs : Within ports s) (hbetween : ∀ name, Between old new name (s.shown name))
    {row : UdpBcastForwarderRow} (hrow : row ∈ changes.udpBcastForwarder.current)
    {name : CString} {udpPort : UInt16} (hsrc : row.srcPort = some name)
    (hdport : row.udpDport = udpPort.toNat) :
    ∃ s', udpfwdHandleUdpBcastForwarderConfigChange s row = .ok s' ∧ Within ports s' ∧
      (∀ other, Between old new other (s'.shown other)) ∧
      (∀ k, k.2 = udpPort → (k ∈ s'.serversOf name ↔ new.Serves name k)) ∧
      ∀ other k, ¬(other = name ∧ k.2 = udpPort) →
        (k ∈ s'.serversOf other ↔ k ∈ s.serversOf other) := by
  obtain ⟨name', udpPort', hsrc', hvrf, hdport', hport, hname, hids⟩ := h.forwarder_row hrow
  obtain rfl : name = name' := Option.some.inj (hsrc.symm.trans hsrc')
  obtain rfl : udpPort = udpPort' := by
    rw [hdport, Nat.cast_inj, UInt16.toNat_inj] at hdport'
    exact hdport'
  obtain ⟨s', hrun, hs', hgw', hmem', hframe⟩ := hs.udpBcastForwarderConfigChange h.few hsrc hvrf
    hname hdport (h.newInv.forwarder.length_le hrow) (h.newInv.forwarder.nodup_validAddresses hrow)
    (h.forwarder_fits (hbetween name) hport hids)
  have hself : ∀ k, k.2 = udpPort → (k ∈ s'.serversOf name ↔ new.Serves name k) := by
    intro k hk
    rw [hmem', ← hids k hk]
    simp [hk]
  have hothers : ∀ k, k.2 ≠ udpPort → (k ∈ s'.serversOf name ↔ k ∈ s.serversOf name) := by
    intro k hk
    rw [hmem']
    simp [hk]
  have hframe' : ∀ other, other ≠ name → s'.shown other = s.shown other :=
    fun other hne => shown_of_interface (hframe other hne)
  -- only the ports of this row have changed, and only on its interface
  refine ⟨s', hrun, hs', fun other => ?_, hself, fun other k hne => ?_⟩
  · by_cases heq : other = name
    · subst heq
      exact (hbetween other).visited hport hgw' hself hothers
    · rw [hframe' other heq]
      exact hbetween other
  · by_cases heq : other = name
    · subst heq
      exact hothers k fun hk => hne ⟨rfl, hk⟩
    · have hsame : s'.serversOf other = s.serversOf other := congrArg Prod.fst (hframe' other heq)
      rw [hsame]

/-- The interface and the port of a forwarder row. -/
def forwarderPort (row : UdpBcastForwarderRow) : CString × ℤ :=
  (row.srcPort.getD [], row.udpDport)

/-- The servers of an interface on a port. -/
def State.heldOn (s : State) (place : CString × ℤ) (k : ServerKey) : Prop :=
  (k.2.toNat : ℤ) = place.2 ∧ k ∈ s.serversOf place.1

/-- No port of an interface is visited twice. -/
theorem PollInput.forwarder_nodup (h : PollInput defaultVrfName ports t survivors changes old new) :
    (changes.udpBcastForwarder.changed.map forwarderPort).Nodup := by
  have hkeys := nodup_changed h.newInv.forwarder
  refine List.Nodup.map_on ?_ hkeys.of_map
  intro row hrow row' hrow' heq
  refine List.inj_on_of_nodup_map hkeys hrow hrow' ?_
  obtain ⟨name, _, hsrc, hvrf, _⟩ := h.forwarder_row (current_of_changed hrow)
  obtain ⟨name', _, hsrc', hvrf', _⟩ := h.forwarder_row (current_of_changed hrow')
  obtain ⟨hname, hdport⟩ := Prod.mk.inj heq
  rw [hsrc, hsrc', Option.getD_some, Option.getD_some] at hname
  have hport : row.srcPort = row'.srcPort := by rw [hsrc, hsrc', hname]
  exact Prod.ext hport (Prod.ext (hvrf.trans hvrf'.symm) hdport)

/-- A visit gives the port of the row its servers, and changes no other port. -/
theorem PollInput.forwarder_step (h : PollInput defaultVrfName ports t survivors changes old new)
    (hs : Within ports s) (hbetween : ∀ name, Between old new name (s.shown name))
    {row : UdpBcastForwarderRow} (hrow : row ∈ changes.udpBcastForwarder.current) :
    ∃ s', udpfwdHandleUdpBcastForwarderConfigChange s row = .ok s' ∧
      (Within ports s' ∧ ∀ name, Between old new name (s'.shown name)) ∧
      (∀ k, (k.2.toNat : ℤ) = row.udpDport →
        (s'.heldOn (forwarderPort row) k ↔ new.Serves (forwarderPort row).1 k)) ∧
      ∀ other, other ≠ forwarderPort row → s'.heldOn other = s.heldOn other := by
  obtain ⟨name, udpPort, hsrc, _, hdport, _⟩ := h.forwarder_row hrow
  obtain ⟨s', hrun, hs', hbetween', hself, hothers⟩ :=
    h.forwarder_visit hs hbetween hrow hsrc hdport
  have hport : forwarderPort row = (name, (udpPort.toNat : ℤ)) := by
    rw [forwarderPort, hsrc, hdport]
    rfl
  refine ⟨s', hrun, ⟨hs', hbetween'⟩, fun k hk => ?_, fun other hne => funext fun k => ?_⟩
  · have hk' : k.2 = udpPort := by
      rw [hdport, Nat.cast_inj, UInt16.toNat_inj] at hk
      exact hk
    rw [hport]
    exact (and_iff_right (hk.trans hdport)).trans (hself k hk')
  · refine propext (and_congr_right fun hk => hothers other.1 k ?_)
    rintro ⟨hname, heq⟩
    rw [heq] at hk
    exact hne ((Prod.ext hname hk.symm).trans hport.symm)

/-- A port that is not visited has the servers it had. -/
theorem PollInput.forwarder_unvisited
    (h : PollInput defaultVrfName ports t survivors changes old new) {name : CString}
    {v : Multiset ServerKey × IpAddress} (hbetween : Between old new name v) {k : ServerKey}
    (hport : k.2 ≠ dhcpsPort)
    (hmem : (name, (k.2.toNat : ℤ)) ∉ changes.udpBcastForwarder.changed.map forwarderPort) :
    k ∈ v.1 ↔ new.Serves name k := by
  by_cases hempty : new.forwarder (name, k.2.toNat) = (∅, none)
  · -- no server is left on a port without a row, and none is configured
    refine iff_of_false (fun hk => hbetween.used k hport hk (congrArg Prod.fst hempty))
      fun hserves => ?_
    exact hserves.entry_ne hport (congrArg Prod.fst hempty)
  · -- a row that is not visited is as it was
    obtain ⟨r, hr, hkey⟩ := (entry_ne_iff h.newInv.forwarder).mp hempty
    have hsrc : r.row.srcPort = some name := (Prod.mk.inj hkey).1
    have hdport : r.row.udpDport = k.2.toNat := (Prod.mk.inj (Prod.mk.inj hkey).2).2
    have hentry := h.polled.forwarder.entry_eq h.oldInv.forwarder h.newInv.forwarder hr hkey
      fun hchanged => hmem (List.mem_map.mpr ⟨r.row, hchanged,
        Prod.ext (congrArg (Option.getD · []) hsrc) hdport⟩)
    have hsame : old.Serves name k ↔ new.Serves name k := by
      rw [Config.serves_forward hport, Config.serves_forward hport]
      exact lists_congr (congrArg Prod.fst hentry) k.1
    constructor
    · exact fun hk => (hbetween.upper k hport hk).elim hsame.mp id
    · exact fun hnew => hbetween.lower k hport (hsame.mpr hnew) hnew

/-- After the visits the cache agrees with both tables. -/
theorem PollInput.forwarder_visits (h : PollInput defaultVrfName ports t survivors changes old new)
    (hs : Within ports s) (hbetween : ∀ name, Between old new name (s.shown name)) :
    ∃ s', changes.udpBcastForwarder.changed.foldlM udpfwdHandleUdpBcastForwarderConfigChange s
        = .ok s' ∧ Within ports s' ∧ Agrees s' new := by
  obtain ⟨s', hrun, ⟨hs', hbetween'⟩, hvisited, _⟩ := @foldlM_walk _ _ _ _ _ _ forwarderPort
    State.heldOn (fun s => Within ports s ∧ ∀ name, Between old new name (s.shown name))
    (fun row _ => row ∈ changes.udpBcastForwarder.changed) (fun _ _ => False)
    (fun row _ v => ∀ k, (k.2.toNat : ℤ) = row.udpDport →
      (v k ↔ new.Serves (forwarderPort row).1 k))
    (fun s row hs hrow _ => h.forwarder_step hs.1 hs.2 (current_of_changed hrow))
    changes.udpBcastForwarder.changed s h.forwarder_nodup ⟨hs, hbetween⟩ (fun _ hrow => hrow)
    fun _ _ hfalse => hfalse
  refine ⟨s', hrun, hs', fun name => ⟨fun k => ?_, (hbetween' name).gateway⟩⟩
  -- helpers stay as they are; a port with a visited row is as configured, one without is as it was
  by_cases hhelper : k.2 = dhcpsPort
  · exact (hbetween' name).helper k hhelper
  by_cases hmem : (name, (k.2.toNat : ℤ)) ∈ changes.udpBcastForwarder.changed.map forwarderPort
  · obtain ⟨row, hrow, hport⟩ := List.mem_map.mp hmem
    obtain ⟨hname, hdport⟩ := Prod.mk.inj hport
    have hdone := hvisited row hrow k hdport.symm
    rw [hport] at hdone
    exact (and_iff_right rfl).symm.trans hdone
  · exact h.forwarder_unvisited (hbetween' name) hhelper hmem

end forwarder

/-! ## The reconfiguration -/

/-- A reconfiguration after a gentle change does not fault, and the cache agrees with the tables
again. -/
theorem PollInput.reconfigure {defaultVrfName : CString} {ports : Finset CString} {t : ServerTables}
    {survivors : Survivors} {changes : TableChanges} {old new : Config} {s : State}
    (h : PollInput defaultVrfName ports t survivors changes old new) (hs : Within ports s)
    (hagrees : Agrees s old) :
    ∃ s', udpfwdReconfigure s changes = .ok s' ∧ Within ports s' ∧ Agrees s' new := by
  obtain ⟨s₁, hrun₁, hs₁, hshows₁⟩ := h.relay_delete hs hagrees
  obtain ⟨s₂, hrun₂, hs₂, hshows₂⟩ := h.relay_visits hs₁ hshows₁
  obtain ⟨s₃, hrun₃, hs₃, hbetween⟩ := h.forwarder_delete hs₂ hshows₂
  obtain ⟨s₄, hrun₄, hs₄, hagrees'⟩ := h.forwarder_visits hs₃ hbetween
  refine ⟨s₄, ?_, hs₄, hagrees'⟩
  have hvisits₂ : (changes.dhcpRelay.changed.foldlM
      (fun s row => (HandlerCall.dhcpRelayConfigChange row changes.modified).apply s) s₁)
        = .ok s₂ := hrun₂
  have hvisits₄ : (changes.udpBcastForwarder.changed.foldlM
      (fun s row => (HandlerCall.udpBcastForwarderConfigChange row).apply s) s₃) = .ok s₄ := hrun₄
  rw [udpfwdReconfigure_eq, TableChanges.calls, h.polled.relay.calls_eq,
    h.polled.forwarder.calls_eq]
  simp only [List.foldlM_append, List.foldlM_map, hrun₁, hvisits₂, hrun₃, ok_bind]
  exact hvisits₄

end Udpfwd
end IpApps
