import IpApps.Udpfwd.ConfigEdits
import IpApps.Udpfwd.PacketFrames

/-!
# Commands, the database and the daemon

Commands write the tables, and the daemon follows them: `relay_run` reconfigures the cache when
the sequence number of the database has changed since it last did. In between any number of
commands may have been carried out and of packets received, the lock of the daemon may have been
lost, and the daemon may have been started again.

`synced_of_gentle` says that the cache agrees with the tables as the daemon last saw them in every
run in which the daemon sees gentle changes only, and `synced_of_prompt` that this is so if it looks
after each command.
-/

namespace IpApps
namespace Udpfwd

open Vty Vty.ServerRow

/-! ## What the tables say -/

/-- The servers of an interface, by the rows of the tables. -/
def Vty.ServerTables.Serves (t : ServerTables) (name : CString) (k : ServerKey) : Prop :=
  (k.2 = dhcpsPort ∧
      ∃ row ∈ t.dhcpRelay, row.port = some name ∧ k.1 ∈ validAddresses row.ipv4UcastServer) ∨
    (k.2 ≠ dhcpsPort ∧ ∃ row ∈ t.udpBcast, row.srcPort = some name ∧
      row.udpDport = k.2.toNat ∧ k.1 ∈ validAddresses row.ipv4UcastServer)

/-- The gateway of an interface, 0 without one. -/
def Vty.ServerTables.gateway (t : ServerTables) (name : CString) : IpAddress :=
  (((t.dhcpRelay.find? fun row => row.port = some name).bind (·.bootpGateway)).bind
    serverAddress).getD 0

/-- The interfaces of the cache have the servers and the gateways of the tables, each server
once. -/
structure Synced (s : State) (t : ServerTables) : Prop where
  once : ∀ name, (s.serversOf name).Nodup
  servers : ∀ name k, k ∈ s.serversOf name ↔ t.Serves name k
  gateway : ∀ name, s.bootpGwOf name = t.gateway name

section tables

variable {defaultVrfName : CString} {t : ServerTables} {g : Config}

theorem serves_iff (h : t.Inv defaultVrfName g.relay g.forwarder) (name : CString)
    (k : ServerKey) : t.Serves name k ↔ g.Serves name k := by
  unfold Vty.ServerTables.Serves Config.Serves
  refine or_congr (and_congr_right fun _ => ?_) (and_congr_right fun _ => ?_)
  · constructor
    · rintro ⟨row, hrow, hport, hid⟩
      exact (h.relay.mem_validAddresses hrow (h.relay.rowKey_eq hrow hport)).mp hid
    · intro hlists
      obtain ⟨row, hrow, hkey, hid⟩ := h.relay.exists_row_of_lists hlists
      exact ⟨row, hrow, (Prod.mk.inj hkey).1, hid⟩
  · constructor
    · rintro ⟨row, hrow, hport, hdport, hid⟩
      have hkey := h.forwarder.rowKey_eq hrow hport
      rw [show index row = (k.2.toNat : ℤ) from hdport] at hkey
      exact (h.forwarder.mem_validAddresses hrow hkey).mp hid
    · intro hlists
      obtain ⟨row, hrow, hkey, hid⟩ := h.forwarder.exists_row_of_lists hlists
      exact ⟨row, hrow, (Prod.mk.inj hkey).1, (Prod.mk.inj (Prod.mk.inj hkey).2).2, hid⟩

theorem gateway_eq (h : t.Inv defaultVrfName g.relay g.forwarder) (name : CString) :
    t.gateway name = g.gateway name := by
  unfold Vty.ServerTables.gateway Config.gateway
  cases hfind : t.dhcpRelay.find? fun row => row.port = some name with
  | none =>
    have hempty : g.relay (name, ()) = (∅, none) := by
      refine h.relay.holds.entry_of_free fun row hrow hkey => ?_
      exact List.find?_eq_none.mp hfind row hrow (decide_eq_true (Prod.mk.inj hkey).1)
    rw [hempty]
    rfl
  | some row =>
    have hrow := List.mem_of_find?_eq_some hfind
    have hfound := List.find?_some hfind
    have hport : row.port = some name := of_decide_eq_true hfound
    have hvalue : row.bootpGateway = (g.relay (name, ())).2 :=
      (Prod.mk.inj (h.relay.holds.value_of_key hrow (h.relay.rowKey_eq hrow hport))).2
    rw [Option.bind_some, hvalue]

theorem Agrees.synced {ports : Finset CString} {s : State} (h : Agrees s g) (hs : Within ports s)
    (ht : t.Inv defaultVrfName g.relay g.forwarder) : Synced s t where
  once := hs.once
  servers name k := ((h name).mem k).trans (serves_iff ht name k).symm
  gateway name := (h name).gateway.trans (gateway_eq ht name).symm

/-- Tables stand for one configuration. -/
theorem Vty.ServerTables.Inv.unique {g' : Config} (h : t.Inv defaultVrfName g.relay g.forwarder)
    (h' : t.Inv defaultVrfName g'.relay g'.forwarder) : g = g' := by
  cases g
  cases g'
  exact congrArg₂ Config.mk (h.relay.unique h'.relay) (h.forwarder.unique h'.forwarder)

/-- Empty tables stand for the empty configuration. -/
theorem eq_empty_of_nil (h : ServerTables.Inv defaultVrfName ⟨[], []⟩ g.relay g.forwarder) :
    g = Config.empty :=
  h.unique ⟨TableInv.empty, TableInv.empty⟩

end tables

/-! ## The daemon -/

/-- The state of the daemon: its cache, and `idl_seqno`. -/
structure Daemon where
  state : State
  idlSeqno : UInt32

/-- `relay_run`, with what the database says about the lock and its sequence number. -/
def relayRun (locked : Bool) (newIdlSeqno : UInt32) (reconfigure : State → Except Fault State)
    (d : Daemon) : Except Fault Daemon :=
  if !locked then .ok d
  else if newIdlSeqno = d.idlSeqno then .ok d
  else do
    let state ← reconfigure d.state
    return ⟨state, newIdlSeqno⟩

/-- The keys of the rows of the tables. -/
def Survivors.of (t : ServerTables) : Survivors where
  relay key := ∃ row ∈ t.dhcpRelay, rowKey row = key
  forwarder key := ∃ row ∈ t.udpBcast, rowKey row = key

/-- The keys of the rows that the tables still have. -/
def Survivors.within (survivors : Survivors) (t : ServerTables) : Survivors where
  relay key := survivors.relay key ∧ (Survivors.of t).relay key
  forwarder key := survivors.forwarder key ∧ (Survivors.of t).forwarder key

/-- No row has been seen. -/
def Survivors.none : Survivors := ⟨fun _ => False, fun _ => False⟩

/-- The tables, the updates the daemon has received of the database, and the daemon. What comes
after is kept for the sake of the reports: the tables and the updates at the last reconfiguration,
the rows that have not been deleted since, and how many commands have been carried out. -/
structure System where
  tables : ServerTables
  seqno : ℕ
  daemon : Except Fault Daemon
  polled : ServerTables
  polledAt : ℕ
  survivors : Survivors
  pending : ℕ

namespace System

/-- The daemon is started, and receives the tables. -/
def start (hashInt : UInt32 → UInt32 → UInt32) (tables : ServerTables) (seqno : ℕ) : System where
  tables := tables
  seqno := seqno
  daemon := .ok ⟨State.empty hashInt, 0⟩
  polled := ⟨[], []⟩
  polledAt := 0
  survivors := .none
  pending := 0

/-- The tables after a command. -/
def written (s : System) (outcome : Vty.Outcome ServerTables) (t' : ServerTables) (updates : ℕ) :
    System :=
  match outcome.written with
  | some _ => { s with
      tables := t'
      seqno := s.seqno + updates
      survivors := s.survivors.within t'
      pending := s.pending + 1 }
  | none => { s with seqno := s.seqno + updates }

/-- A packet is received. -/
def received (s : System) (a : Arrival) : System :=
  match s.daemon with
  | .error _ => s
  | .ok d => { s with daemon := (a.run d.state).map fun r => ⟨r.state, d.idlSeqno⟩ }

/-- A call of `relay_run`. -/
def round (s : System) (locked : Bool) (changes : TableChanges) : System :=
  match s.daemon with
  | .error _ => s
  | .ok d =>
    let newIdlSeqno := UInt32.ofNat s.seqno
    let daemon := relayRun locked newIdlSeqno (fun state => udpfwdReconfigure state changes) d
    if !locked || newIdlSeqno = d.idlSeqno then { s with daemon := daemon }
    else { s with
      daemon := daemon
      polled := changes.tables
      polledAt := s.seqno
      survivors := .of changes.tables
      pending := 0 }

end System

/-- What is typed, which packets are received and when the daemon looks. -/
structure Discipline where
  typed : System → Session → ServerCommand → Prop
  receives : System → Arrival → Prop
  polls : System → Prop

/-- The systems that runs under the rules lead to from a start with empty tables. What a command
has committed, the database may return in another order, and what it reports to the daemon may say
more than has changed. -/
inductive Runs (hashInt : UInt32 → UInt32 → UInt32) (tests : AddressTests)
    (defaultVrfName : CString) (rules : Discipline) : System → Prop
  | start (seqno : ℕ) (hseqno : 0 < seqno) :
      Runs hashInt tests defaultVrfName rules (System.start hashInt ⟨[], []⟩ seqno)
  | restart {s : System} (h : Runs hashInt tests defaultVrfName rules s) (seqno : ℕ)
      (hseqno : 0 < seqno) :
      Runs hashInt tests defaultVrfName rules (System.start hashInt s.tables seqno)
  | line {s : System} (h : Runs hashInt tests defaultVrfName rules s) (vty : Session)
      (hready : vty.Ready defaultVrfName) (line : Line)
      (htyped : ∀ command, line.decode tests = .ok command → rules.typed s vty command)
      (t' : ServerTables) (hcommits : ∀ w,
        (line.exec tests defaultVrfName vty s.tables).written = some w → w.Same t')
      (updates : ℕ) (hupdates :
        (line.exec tests defaultVrfName vty s.tables).written.isSome → 0 < updates) :
      Runs hashInt tests defaultVrfName rules
        (s.written (line.exec tests defaultVrfName vty s.tables) t' updates)
  | packet {s : System} (h : Runs hashInt tests defaultVrfName rules s) (a : Arrival)
      (hreceives : rules.receives s a) :
      Runs hashInt tests defaultVrfName rules (s.received a)
  | round {s : System} (h : Runs hashInt tests defaultVrfName rules s) (locked : Bool)
      (changes : TableChanges) (hpolled : Polled s.polled s.survivors changes)
      (hcurrent : s.tables.Same changes.tables) (hpolls : locked = true → rules.polls s) :
      Runs hashInt tests defaultVrfName rules (s.round locked changes)

/-! ## The invariant -/

/-- The configurations of the tables when the daemon last looked, and now. -/
structure System.Inv (defaultVrfName : CString) (ports : Finset CString) (s : System)
    (old cur : Config) : Prop where
  polled : s.polled.Inv defaultVrfName old.relay old.forwarder
  tables : s.tables.Inv defaultVrfName cur.relay cur.forwarder
  oldProper : old.Proper ports
  curProper : cur.Proper ports
  daemon : ∃ d, s.daemon = .ok d ∧ Within ports d.state ∧ Agrees d.state old ∧
    d.idlSeqno = UInt32.ofNat s.polledAt
  seqno : s.polledAt ≤ s.seqno
  quiet : s.seqno = s.polledAt → cur = old

section invariant

variable {hashInt : UInt32 → UInt32 → UInt32} {tests : AddressTests} {defaultVrfName : CString}
  {ports : Finset CString} {s : System} {old cur : Config}

theorem System.Inv.start {t : ServerTables} (h : t.Inv defaultVrfName cur.relay cur.forwarder)
    (hcur : cur.Proper ports) {seqno : ℕ} (hseqno : 0 < seqno) :
    (System.start hashInt t seqno).Inv defaultVrfName ports Config.empty cur where
  polled := ⟨TableInv.empty, TableInv.empty⟩
  tables := h
  oldProper := Config.empty_proper ports
  curProper := hcur
  daemon := ⟨_, rfl, Within.empty hashInt, agrees_empty hashInt, rfl⟩
  seqno := Nat.zero_le seqno
  quiet hzero := absurd hzero (Nat.ne_of_gt hseqno)

/-- A command on one of the interfaces, with a gateway that denotes an address. -/
structure Sound (ports : Finset CString) (vty : Session) (command : ServerCommand) : Prop where
  port : vty.index ∈ ports
  gateway : command.GatewayDenotes

/-- A line that writes the tables is a command that edits their configuration. -/
theorem line_edit {t t' w : ServerTables} (h : t.Inv defaultVrfName cur.relay cur.forwarder)
    (hcur : cur.Proper ports) {vty : Session} (hready : vty.Ready defaultVrfName) {line : Line}
    (hsound : ∀ command, line.decode tests = .ok command → Sound ports vty command)
    (hwritten : (line.exec tests defaultVrfName vty t).written = some w) (hcommits : w.Same t') :
    ∃ command, line.decode tests = .ok command ∧
      t'.Inv defaultVrfName (command.edit vty.index cur).relay
        (command.edit vty.index cur).forwarder ∧ (command.edit vty.index cur).Proper ports := by
  unfold Line.exec at hwritten
  cases hdecode : line.decode tests with
  | error message =>
    -- a message has been printed, and nothing written
    rw [hdecode] at hwritten
    cases hwritten
  | ok command =>
    rw [hdecode] at hwritten
    obtain ⟨haddress, hnumber⟩ := Line.decode_ok hdecode
    have hsound := hsound command hdecode
    exact ⟨command, rfl, (exec_edit h hready haddress hwritten).same hcommits,
      edit_proper hcur hsound.port hnumber hsound.gateway⟩

theorem System.Inv.line (h : s.Inv defaultVrfName ports old cur) {vty : Session}
    (hready : vty.Ready defaultVrfName) {line : Line}
    (hsound : ∀ command, line.decode tests = .ok command → Sound ports vty command)
    {t' : ServerTables} (hcommits : ∀ w,
      (line.exec tests defaultVrfName vty s.tables).written = some w → w.Same t')
    {updates : ℕ} (hupdates :
      (line.exec tests defaultVrfName vty s.tables).written.isSome → 0 < updates) :
    ((line.exec tests defaultVrfName vty s.tables).written = none ∧
        (s.written (line.exec tests defaultVrfName vty s.tables) t' updates).Inv defaultVrfName
          ports old cur) ∨
      ∃ command, line.decode tests = .ok command ∧
        (line.exec tests defaultVrfName vty s.tables).written.isSome ∧
        (s.written (line.exec tests defaultVrfName vty s.tables) t' updates).Inv defaultVrfName
          ports old (command.edit vty.index cur) := by
  have hle := h.seqno
  unfold System.written
  cases hwritten : (line.exec tests defaultVrfName vty s.tables).written with
  | none =>
    refine Or.inl ⟨rfl, h.polled, h.tables, h.oldProper, h.curProper, h.daemon,
      Nat.le_add_right_of_le hle, fun hsame => h.quiet ?_⟩
    -- without a write the tables are as they were, and so is what the daemon has seen of them
    have hsame : s.seqno + updates = s.polledAt := hsame
    omega
  | some w =>
    have hpos := hupdates (by rw [hwritten]; rfl)
    obtain ⟨command, hdecode, hinv, hproper⟩ :=
      line_edit h.tables h.curProper hready hsound hwritten (hcommits w hwritten)
    refine Or.inr ⟨command, hdecode, rfl, h.polled, hinv, h.oldProper, hproper, h.daemon,
      Nat.le_add_right_of_le hle, fun hsame => ?_⟩
    have hsame : s.seqno + updates = s.polledAt := hsame
    omega

/-- The packet is processed to its end. -/
def System.Ends (s : System) (a : Arrival) : Prop := ∀ d, s.daemon = .ok d → a.Ends d.state

/-- A packet leaves everything but the counters as it is. -/
theorem System.received_eq (hs : ∃ d, s.daemon = .ok d ∧ Linked d.state) {a : Arrival}
    (hends : s.Ends a) :
    ∃ d s', s.daemon = .ok d ∧ CountersChange d.state s' ∧
      s.received a = { s with daemon := .ok ⟨s', d.idlSeqno⟩ } := by
  obtain ⟨d, hd, hl⟩ := hs
  obtain ⟨r', hrun, hcounters⟩ := a.run_of_ends hl (hends d hd)
  refine ⟨d, r'.state, hd, hcounters, ?_⟩
  unfold System.received
  rw [hd]
  dsimp only
  rw [hrun]
  rfl

theorem System.Inv.packet (h : s.Inv defaultVrfName ports old cur) {a : Arrival}
    (hends : s.Ends a) : (s.received a).Inv defaultVrfName ports old cur := by
  obtain ⟨d, hd, hs, hagrees, hseqno⟩ := h.daemon
  obtain ⟨d', s', hd', hcounters, heq⟩ := s.received_eq ⟨d, hd, hs.linked⟩ hends
  obtain rfl : d = d' := Except.ok.inj (hd.symm.trans hd')
  rw [heq]
  exact ⟨h.polled, h.tables, h.oldProper, h.curProper,
    ⟨_, rfl, hcounters.within hs, hcounters.agrees hagrees, hseqno⟩, h.seqno, h.quiet⟩

/-- A call of `relay_run` that finds something to do. -/
theorem System.round_eq {d : Daemon} {changes : TableChanges} (hd : s.daemon = .ok d)
    (hne : UInt32.ofNat s.seqno ≠ d.idlSeqno) :
    s.round true changes = { s with
      daemon := relayRun true (UInt32.ofNat s.seqno) (udpfwdReconfigure · changes) d
      polled := changes.tables
      polledAt := s.seqno
      survivors := .of changes.tables
      pending := 0 } := by
  unfold System.round
  rw [hd]
  dsimp only
  rw [if_neg (by simpa using hne)]

/-- The daemon follows a gentle change. -/
theorem System.Inv.round (hfew : ports.card ≤ 65535) (h : s.Inv defaultVrfName ports old cur)
    {locked : Bool} {changes : TableChanges} (hpolled : Polled s.polled s.survivors changes)
    (hcurrent : s.tables.Same changes.tables)
    (hgentle : locked = true → Gentle defaultVrfName s.survivors old cur) :
    s.round locked changes = s ∨
      (s.round locked changes).Inv defaultVrfName ports cur cur ∧
        (s.round locked changes).pending = 0 ∧
        (s.round locked changes).survivors = .of (s.round locked changes).polled := by
  obtain ⟨d, hd, hs, hagrees, hseqno⟩ := h.daemon
  by_cases hquiet : (!locked || UInt32.ofNat s.seqno = d.idlSeqno) = true
  · left
    have hrun : relayRun locked (UInt32.ofNat s.seqno) (udpfwdReconfigure · changes) d = .ok d := by
      unfold relayRun
      cases locked with
      | false => rfl
      | true => exact if_pos (of_decide_eq_true hquiet)
    unfold System.round
    rw [hd]
    dsimp only
    rw [if_pos hquiet, hrun, ← hd]
  · right
    rw [Bool.or_eq_true, not_or, Bool.not_eq_true', Bool.not_eq_false, decide_eq_true_iff] at hquiet
    obtain ⟨rfl, hne⟩ := hquiet
    have hnewInv : changes.tables.Inv defaultVrfName cur.relay cur.forwarder :=
      h.tables.same hcurrent
    -- the round polls what has changed between the old tables and the current ones
    have hinput : PollInput defaultVrfName ports s.polled s.survivors changes old cur :=
      ⟨hfew, h.polled, hnewInv, h.curProper, hpolled, hgentle rfl⟩
    obtain ⟨s', hrun, hs', hagrees'⟩ := hinput.reconfigure hs hagrees
    have hrelay : relayRun true (UInt32.ofNat s.seqno)
        (udpfwdReconfigure · changes) d = .ok ⟨s', UInt32.ofNat s.seqno⟩ := by
      unfold relayRun
      rw [if_neg (by decide), if_neg hne]
      simp only [hrun]
      rfl
    rw [System.round_eq hd hne]
    exact ⟨⟨hnewInv, h.tables, h.curProper, h.curProper, ⟨_, hrelay, hs', hagrees', rfl⟩,
      Nat.le_refl _, fun _ => rfl⟩, rfl, rfl⟩

/-- A daemon that has nothing to do has seen the tables, unless it has missed as many updates as
there are sequence numbers. -/
theorem System.Inv.synced (h : s.Inv defaultVrfName ports old cur) :
    ∃ d, s.daemon = .ok d ∧ Synced d.state s.polled ∧
      (UInt32.ofNat s.seqno = d.idlSeqno → s.seqno < s.polledAt + 2 ^ 32 →
        Synced d.state s.tables) := by
  obtain ⟨d, hd, hs, hagrees, hseqno⟩ := h.daemon
  refine ⟨d, hd, hagrees.synced hs h.polled, fun hquiet hbound => ?_⟩
  have hmod : s.seqno % 2 ^ 32 = s.polledAt % 2 ^ 32 := by
    rw [hseqno] at hquiet
    have hnat := congrArg UInt32.toNat hquiet
    rw [UInt32.toNat_ofNat', UInt32.toNat_ofNat'] at hnat
    exact hnat
  have hle := h.seqno
  have hsame : s.seqno = s.polledAt := by omega
  rw [← h.quiet hsame] at hagrees
  exact hagrees.synced hs h.tables

end invariant

/-! ## Interface 1 with a helper address -/

/-- The tests as they come out for the addresses of hosts. -/
def hostTests : AddressTests where
  isValidIpv4 ip := 0 < ip / 2 ^ 24 ∧ ip / 2 ^ 24 < 224 ∧ ip / 2 ^ 24 ≠ 127
  isBroadcastIpv4 ip := ip = 2 ^ 32 - 1
  isSubnetBroadcast ip := ip % 256 = 255

/-- The report about the row of the helper address. -/
def helperChanges : TableChanges where
  dhcpRelay := ⟨helperTables.dhcpRelay.map fun row => ⟨row, true, false⟩, true, false, false⟩
  modified := ⟨false, true⟩
  udpBcastForwarder := ⟨[], false, false, false⟩

/-- The line that sets it. -/
def helperLine : Line := .ipHelperAddress "10.0.0.2".toList true

/-- The helper address is set, and the daemon looks. -/
def helperSystem : System :=
  ((System.start (fun a port => a ^^^ port) ⟨[], []⟩ 1).written
    (helperLine.exec hostTests "vrf".toList sessionOne ⟨[], []⟩) helperTables 1).round true
      helperChanges

theorem helperChanges_polled {survivors : Survivors} (hnone : ∀ key, ¬survivors.relay key)
    (hnone' : ∀ key, ¬survivors.forwarder key) : Polled ⟨[], []⟩ survivors helperChanges where
  -- nothing survives from empty tables: every row is a new one
  relay :=
    { survivor := fun _ _ hcase => absurd hcase (hnone _)
      fresh := fun r hr _ => by
        obtain ⟨_, _, rfl⟩ := List.mem_map.mp hr
        rfl
      present := fun _ hcase => absurd hcase (hnone _)
      anyInserted := fun _ _ _ => rfl
      anyModified := fun r hr hmodified => by
        obtain ⟨_, _, rfl⟩ := List.mem_map.mp hr
        cases hmodified
      anyDeleted := fun _ hrow => absurd hrow List.not_mem_nil }
  servers :=
    { survivor := fun hflag => by cases hflag
      fresh := fun hflag => by cases hflag }
  gateway :=
    { survivor := fun _ _ _ hcase => absurd hcase (hnone _)
      fresh := fun _ r hr _ => by
        obtain rfl := List.mem_singleton.mp hr
        rfl }
  forwarder :=
    { survivor := fun _ _ hcase => absurd hcase (hnone' _)
      fresh := fun _ hr => absurd hr List.not_mem_nil
      present := fun _ hcase => absurd hcase (hnone' _)
      anyInserted := fun _ hr => absurd hr List.not_mem_nil
      anyModified := fun _ hr => absurd hr List.not_mem_nil
      anyDeleted := fun _ hrow => absurd hrow List.not_mem_nil }

/-- The helper address is set on the interface 1, under any rules that allow it. -/
theorem helperSystem_runs {rules : Discipline}
    (htyped : ∀ s, s.tables = ⟨[], []⟩ →
      rules.typed s sessionOne (.server (.helperAddress "10.0.0.2".toList) true))
    (hpolls : ∀ s, s.polled = ⟨[], []⟩ → rules.polls s) :
    Runs (fun a port => a ^^^ port) hostTests "vrf".toList rules helperSystem := by
  have hdecode : helperLine.decode hostTests
      = .ok (.server (.helperAddress "10.0.0.2".toList) true) := rfl
  refine .round (.line (.start 1 (by decide)) sessionOne sessionOne_ready helperLine ?_ helperTables
    ?_ 1 fun _ => by decide) true helperChanges (helperChanges_polled ?_ ?_) ?_
    fun _ => hpolls _ rfl
  · intro command hcommand
    obtain rfl := Except.ok.inj (hdecode.symm.trans hcommand)
    exact htyped _ rfl
  · intro w hw
    obtain rfl : helperTables = w := Option.some.inj hw
    exact ⟨List.Perm.refl _, List.Perm.refl _⟩
  · exact fun key hkey => hkey.1
  · exact fun key hkey => hkey.1
  · exact ⟨List.Perm.refl _, List.Perm.refl _⟩

/-! ## Runs with gentle changes -/

section runs

variable {hashInt : UInt32 → UInt32 → UInt32} {tests : AddressTests} {defaultVrfName : CString}
  {ports : Finset CString} {s : System}

/-- What has changed since the daemon last looked is a gentle change. -/
def System.GentleSince (defaultVrfName : CString) (s : System) : Prop :=
  ∀ old cur : Config, s.polled.Inv defaultVrfName old.relay old.forwarder →
    s.tables.Inv defaultVrfName cur.relay cur.forwarder →
    Gentle defaultVrfName s.survivors old cur

/-- Commands on the interfaces, packets that are processed to their end, and gentle changes when
the daemon looks. -/
def gentleRules (defaultVrfName : CString) (ports : Finset CString) : Discipline where
  typed _ vty command := Sound ports vty command
  receives s a := s.Ends a
  polls s := s.GentleSince defaultVrfName

theorem inv_of_gentle (hfew : ports.card ≤ 65535)
    (h : Runs hashInt tests defaultVrfName (gentleRules defaultVrfName ports) s) :
    ∃ old cur, s.Inv defaultVrfName ports old cur := by
  induction h with
  | start seqno hseqno =>
    exact ⟨_, Config.empty, .start ⟨TableInv.empty, TableInv.empty⟩ (Config.empty_proper ports)
      hseqno⟩
  -- a start forgets what the daemon had, not what the tables hold
  | restart _ seqno hseqno ih =>
    obtain ⟨_, cur, hinv⟩ := ih
    exact ⟨_, cur, .start hinv.tables hinv.curProper hseqno⟩
  | line _ vty hready line htyped t' hcommits updates hupdates ih =>
    obtain ⟨old, cur, hinv⟩ := ih
    rcases hinv.line hready htyped hcommits hupdates with ⟨_, hinv'⟩ | ⟨command, _, _, hinv'⟩
    · exact ⟨old, cur, hinv'⟩
    · exact ⟨old, _, hinv'⟩
  | packet _ a hreceives ih =>
    obtain ⟨old, cur, hinv⟩ := ih
    exact ⟨old, cur, hinv.packet hreceives⟩
  | round _ locked changes hpolled hcurrent hpolls ih =>
    obtain ⟨old, cur, hinv⟩ := ih
    rcases hinv.round hfew hpolled hcurrent fun hlocked =>
      hpolls hlocked old cur hinv.polled hinv.tables with hsame | ⟨hinv', _⟩
    · rw [hsame]
      exact ⟨old, cur, hinv⟩
    · exact ⟨cur, cur, hinv'⟩

theorem helperSystem_gentle : Runs (fun a port => a ^^^ port) hostTests "vrf".toList
    (gentleRules "vrf".toList {['1']}) helperSystem := by
  refine helperSystem_runs (fun _ _ => ⟨Finset.mem_singleton_self _, trivial⟩)
    fun s hpolled old cur hold hcur => ?_
  rw [hpolled] at hold
  rw [eq_empty_of_nil hold]
  exact .of_empty hcur

/-- Unless the daemon has yet to look for the first time, one command at most has been carried out
since it did. -/
structure System.KeptUp (defaultVrfName : CString) (s : System) (old cur : Config) : Prop where
  zero : s.polled ≠ ⟨[], []⟩ → s.pending = 0 → cur = old
  one : s.polled ≠ ⟨[], []⟩ → s.pending ≤ 1 → SmallChange old cur ∧
    ∀ name, old.relay (name, ()) ≠ (∅, none) → cur.relay (name, ()) ≠ (∅, none) →
      s.survivors.relay (interfaceKey defaultVrfName name ())

/-- Commands on the interfaces, of which none sets a helper address that is the address of a
forward-protocol server of the interface, and packets that are processed to their end. The daemon
looks after each of the commands, but may take any number of them together when it is started. -/
def promptRules (ports : Finset CString) : Discipline where
  typed s vty command := Sound ports vty command ∧ command.Unshared (s.tables.Serves vty.index)
  receives s a := s.Ends a
  polls s := s.pending ≤ 1 ∨ s.polled = ⟨[], []⟩

/-- A row for each relay entry. -/
theorem survivors_of {t : ServerTables} {g : Config}
    (h : t.Inv defaultVrfName g.relay g.forwarder) {name : CString}
    (hne : g.relay (name, ()) ≠ (∅, none)) :
    (Survivors.of t).relay (interfaceKey defaultVrfName name ()) :=
  h.relay.exists_row hne

theorem System.KeptUp.gentle {old cur : Config} (h : s.KeptUp defaultVrfName old cur)
    (hinv : s.Inv defaultVrfName ports old cur) (hports : PrefixFree ports)
    (hpolls : s.pending ≤ 1 ∨ s.polled = ⟨[], []⟩) : Gentle defaultVrfName s.survivors old cur := by
  by_cases hempty : s.polled = ⟨[], []⟩
  · have hpolled := hinv.polled
    rw [hempty] at hpolled
    rw [eq_empty_of_nil hpolled]
    exact .of_empty hinv.tables
  · obtain ⟨hsmall, hsurvive⟩ := h.one hempty (hpolls.resolve_right hempty)
    exact hsmall.gentle hinv.polled hinv.tables hports hinv.oldProper hinv.curProper hsurvive

theorem inv_of_prompt (hfew : ports.card ≤ 65535) (hports : PrefixFree ports)
    (h : Runs hashInt tests defaultVrfName (promptRules ports) s) :
    ∃ old cur, s.Inv defaultVrfName ports old cur ∧ s.KeptUp defaultVrfName old cur := by
  induction h with
  | start seqno hseqno =>
    exact ⟨_, Config.empty, .start ⟨TableInv.empty, TableInv.empty⟩ (Config.empty_proper ports)
      hseqno, fun hne => absurd rfl hne, fun hne => absurd rfl hne⟩
  | restart _ seqno hseqno ih =>
    obtain ⟨_, cur, hinv, _⟩ := ih
    exact ⟨_, cur, .start hinv.tables hinv.curProper hseqno, fun hne => absurd rfl hne,
      fun hne => absurd rfl hne⟩
  | @line s _ vty hready line htyped t' hcommits updates hupdates ih =>
    obtain ⟨old, cur, hinv, hkept⟩ := ih
    rcases hinv.line hready (fun command hdecode => (htyped command hdecode).1) hcommits
      hupdates with ⟨hnone, hinv'⟩ | ⟨command, hdecode, hsome, hinv'⟩
    · refine ⟨old, cur, hinv', ?_⟩
      unfold System.written
      rw [hnone]
      exact ⟨hkept.zero, hkept.one⟩
    · refine ⟨old, _, hinv', ?_⟩
      obtain ⟨w, hw⟩ := Option.isSome_iff_exists.mp hsome
      have hserves : s.tables.Serves vty.index = cur.Serves vty.index :=
        funext fun k => propext (serves_iff hinv.tables vty.index k)
      have hunshared := (htyped command hdecode).2
      rw [hserves] at hunshared
      unfold System.written at hinv' ⊢
      rw [hw] at hinv' ⊢
      refine ⟨fun _ hpending => absurd hpending (Nat.succ_ne_zero _), fun hne hpending => ?_⟩
      -- the one command since the daemon looked
      have hzero : s.pending = 0 := Nat.le_zero.mp (Nat.le_of_succ_le_succ hpending)
      have hsame := hkept.zero hne hzero
      obtain ⟨_, hsurvive⟩ := hkept.one hne (by rw [hzero]; exact Nat.zero_le 1)
      rw [hsame] at hunshared hinv' hsurvive ⊢
      exact ⟨edit_small hunshared, fun name hold hcur =>
        ⟨hsurvive name hold hold, survivors_of hinv'.tables hcur⟩⟩
  | packet _ a hreceives ih =>
    obtain ⟨old, cur, hinv, hkept⟩ := ih
    have hinv' := hinv.packet hreceives
    obtain ⟨d, hd, hs, -, -⟩ := hinv.daemon
    obtain ⟨_, _, _, _, heq⟩ := System.received_eq ⟨d, hd, hs.linked⟩ hreceives
    rw [heq] at hinv' ⊢
    exact ⟨old, cur, hinv', hkept.zero, hkept.one⟩
  | @round s _ locked changes hpolled hcurrent hpolls ih =>
    obtain ⟨old, cur, hinv, hkept⟩ := ih
    rcases hinv.round hfew hpolled hcurrent fun hlocked =>
      hkept.gentle hinv hports (hpolls hlocked) with hsame | ⟨hinv', _, hsurvivors⟩
    · rw [hsame]
      exact ⟨old, cur, hinv, hkept⟩
    · refine ⟨cur, cur, hinv', fun _ _ => rfl, fun _ _ => ⟨.refl cur, fun name hne _ => ?_⟩⟩
      rw [hsurvivors]
      exact survivors_of hinv'.polled hne

/-- A daemon that keeps up sees gentle changes only. -/
theorem Runs.gentle (hfew : ports.card ≤ 65535) (hports : PrefixFree ports)
    (h : Runs hashInt tests defaultVrfName (promptRules ports) s) :
    Runs hashInt tests defaultVrfName (gentleRules defaultVrfName ports) s := by
  induction h with
  | start seqno hseqno => exact .start seqno hseqno
  | restart _ seqno hseqno ih => exact .restart ih seqno hseqno
  | line _ vty hready line htyped t' hcommits updates hupdates ih =>
    exact .line ih vty hready line (fun command hdecode => (htyped command hdecode).1) t' hcommits
      updates hupdates
  | packet _ a hreceives ih => exact .packet ih a hreceives
  | round hrun locked changes hpolled hcurrent hpolls ih =>
    refine .round ih locked changes hpolled hcurrent fun hlocked old cur hold hcur => ?_
    obtain ⟨old', cur', hinv, hkept⟩ := inv_of_prompt hfew hports hrun
    have hgentle := hkept.gentle hinv hports (hpolls hlocked)
    rwa [hinv.polled.unique hold, hinv.tables.unique hcur] at hgentle

/-- Commands on the interfaces, any packets, and the daemon looking at any time. -/
def soundRules (ports : Finset CString) : Discipline where
  typed _ vty command := Sound ports vty command
  receives _ _ := True
  polls _ := True

theorem System.tables_round {locked : Bool} {changes : TableChanges} :
    (s.round locked changes).tables = s.tables := by
  unfold System.round
  cases s.daemon with
  | error fault => rfl
  | ok d =>
    dsimp only
    split <;> rfl

theorem System.tables_received {a : Arrival} : (s.received a).tables = s.tables := by
  unfold System.received
  cases s.daemon with
  | error fault => rfl
  | ok d => rfl

/-- Whatever becomes of the daemon, the tables stand for a configuration. -/
theorem tables_of_sound (h : Runs hashInt tests defaultVrfName (soundRules ports) s) :
    ∃ cur : Config, s.tables.Inv defaultVrfName cur.relay cur.forwarder ∧ cur.Proper ports := by
  induction h with
  | start seqno hseqno =>
    exact ⟨Config.empty, ⟨TableInv.empty, TableInv.empty⟩, Config.empty_proper ports⟩
  | restart _ seqno hseqno ih => exact ih
  | @line s _ vty hready line htyped t' hcommits updates hupdates ih =>
    obtain ⟨cur, hinv, hproper⟩ := ih
    unfold System.written
    cases hwritten : (line.exec tests defaultVrfName vty s.tables).written with
    | none => exact ⟨cur, hinv, hproper⟩
    | some w =>
      obtain ⟨command, _, hinv', hproper'⟩ :=
        line_edit hinv hproper hready htyped hwritten (hcommits w hwritten)
      exact ⟨_, hinv', hproper'⟩
  -- packets and rounds do not write the tables
  | packet _ a hreceives ih =>
    rw [System.tables_received]
    exact ih
  | round _ locked changes hpolled hcurrent hpolls ih =>
    rw [System.tables_round]
    exact ih

/-- A daemon that is started again recovers, whatever the tables have become and whatever the
daemon before it had made of them: after its first look its cache has the servers and the gateways
of the tables. -/
theorem synced_of_restart (hfew : ports.card ≤ 65535)
    (h : Runs hashInt tests defaultVrfName (soundRules ports) s) {seqno : ℕ}
    (hseqno : 0 < seqno) (hbound : seqno < 2 ^ 32) {changes : TableChanges}
    (hpolled : Polled ⟨[], []⟩ .none changes) (hcurrent : s.tables.Same changes.tables) :
    ∃ d, ((System.start hashInt s.tables seqno).round true changes).daemon = .ok d ∧
      Synced d.state s.tables := by
  obtain ⟨cur, hinv, hproper⟩ := tables_of_sound h
  have hstart : (System.start hashInt s.tables seqno).Inv defaultVrfName ports Config.empty cur :=
    .start hinv hproper hseqno
  -- the number the daemon starts with is 0, which the round takes for a change
  have hne : UInt32.ofNat seqno ≠ 0 := by
    intro hzero
    have hnat := congrArg UInt32.toNat hzero
    rw [UInt32.toNat_ofNat', UInt32.toNat_zero, Nat.mod_eq_of_lt hbound] at hnat
    exact Nat.ne_of_gt hseqno hnat
  have hround : (System.start hashInt s.tables seqno).round true changes = { System.start hashInt
      s.tables seqno with
        daemon := relayRun true (UInt32.ofNat seqno) (udpfwdReconfigure · changes)
          ⟨State.empty hashInt, 0⟩
        polled := changes.tables
        polledAt := seqno
        survivors := .of changes.tables
        pending := 0 } := System.round_eq rfl hne
  rcases hstart.round hfew hpolled hcurrent fun _ => Gentle.of_empty hinv with hsame | ⟨hinv', _⟩
  · -- the daemon has looked
    have hpolledAt := congrArg System.polledAt (hround.symm.trans hsame)
    exact absurd hpolledAt (Nat.ne_of_gt hseqno)
  · rw [hround] at hinv' ⊢
    obtain ⟨d, hd, _, hagrees, hidl⟩ := hinv'.daemon
    obtain ⟨d', hd', _, hsynced⟩ := hinv'.synced
    obtain rfl : d = d' := Except.ok.inj (hd.symm.trans hd')
    exact ⟨d, hd, hsynced hidl.symm (Nat.lt_add_of_pos_right (by decide))⟩

/-- The daemon is started again when the helper address has been set. -/
theorem synced_of_restart_helper :
    ∃ d, ((System.start (fun a port => a ^^^ port) helperTables 1).round true helperChanges).daemon
        = .ok d ∧ Synced d.state helperTables := by
  have hruns := @helperSystem_runs (soundRules {['1']})
    (fun _ _ => ⟨Finset.mem_singleton_self _, trivial⟩) fun _ _ => trivial
  exact synced_of_restart (by decide) hruns (by decide) (by decide)
    (helperChanges_polled (fun _ => id) fun _ => id) ⟨List.Perm.refl _, List.Perm.refl _⟩

end runs

end Udpfwd
end IpApps
