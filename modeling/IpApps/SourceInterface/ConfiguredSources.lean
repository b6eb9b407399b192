import IpApps.SourceInterface.Selection

/-!
# Sources that are configured

`isIpConfigured` and `getPort` compare as many characters as the address of the database has
before its mask, or the name of the interface has: an address or a name that begins with the
other one passes for it. Of a port with a primary address the secondary ones are not looked at.
-/

namespace IpApps
namespace SourceInterface

/-! ## Addresses and masks -/

/-- An address of the database up to its mask. -/
def hostPart (address : CString) : CString := address.take (address.idxOf '/')

/-- The comparison finds the beginning of the source. -/
theorem addressMatches_iff {source address : CString} (hmask : '/' ∈ address) :
    addressMatches source address = true ↔ hostPart address <+: source := by
  have hposition : address.idxOf? '/' = some (address.idxOf '/') := by
    rw [List.idxOf_eq_getD_idxOf?]
    cases hidx : address.idxOf? '/' with
    | none => exact absurd hmask (List.idxOf?_eq_none_iff.mp hidx)
    | some position => rfl
  have hlength : (hostPart address).length = address.idxOf '/' := by
    rw [hostPart, List.length_take, Nat.min_eq_left List.idxOf_le_length]
  unfold addressMatches
  rw [hposition, decide_eq_true_iff, Libc.strncmp_eq_zero_iff, List.prefix_iff_eq_take, hlength]
  exact eq_comm

/-- The addresses of a port. -/
def PortRow.addresses (port : PortRow) : List CString :=
  port.ip4Address.toList ++ port.ip4AddressSecondary

/-- The addresses of a port that `isIpConfigured` compares. -/
def PortRow.compared (port : PortRow) : List CString :=
  match port.ip4Address with
  | some address => [address]
  | none => port.ip4AddressSecondary

theorem PortRow.compared_subset (port : PortRow) : port.compared ⊆ port.addresses := by
  intro address h
  unfold PortRow.compared at h
  unfold PortRow.addresses
  split at h
  · rename_i primary hprimary
    rw [List.mem_singleton.mp h, hprimary]
    exact List.mem_cons_self
  · exact List.mem_append_right _ h

/-- An address that is not compared is a secondary one beside a primary one. -/
theorem PortRow.skipped (port : PortRow) {address : CString} (h : address ∈ port.addresses)
    (hcompared : address ∉ port.compared) :
    port.ip4Address.isSome ∧ address ∈ port.ip4AddressSecondary := by
  unfold PortRow.addresses at h
  unfold PortRow.compared at hcompared
  cases hprimary : port.ip4Address with
  | none =>
    rw [hprimary] at h hcompared
    exact absurd h hcompared
  | some primary =>
    rw [hprimary] at h hcompared
    refine ⟨rfl, (List.mem_cons.mp h).resolve_left fun heq => hcompared ?_⟩
    exact List.mem_singleton.mpr heq

/-- A Port table. -/
structure PortTable where
  rows : List PortRow
  /-- Each address has a mask. -/
  masked : ∀ port ∈ rows, ∀ address ∈ port.addresses, '/' ∈ address

namespace PortTable

variable (table : PortTable)

/-- Some port has the address. -/
def Owns (source : CString) : Prop :=
  ∃ port ∈ table.rows, ∃ address ∈ port.addresses, hostPart address = source

/-- Some address that is compared is the beginning of the source. -/
def OwnsBeginning (source : CString) : Prop :=
  ∃ port ∈ table.rows, ∃ address ∈ port.compared, hostPart address <+: source

/-- A port of the name has an address. -/
def HasPort (name : CString) : Prop :=
  ∃ port ∈ table.rows, port.name = name ∧ port.addresses ≠ []

/-- Each port with an address whose name goes on after the given one comes after a port that
has this name and an address. -/
def NamedFirst (name : CString) : Prop :=
  ∀ before port after, table.rows = before ++ port :: after → port.addresses ≠ [] →
    name <+: port.name → port.name ≠ name →
    ∃ other ∈ before, other.name = name ∧ other.addresses ≠ []

instance (source : CString) : Decidable (table.Owns source) :=
  inferInstanceAs (Decidable (∃ port ∈ table.rows, ∃ address ∈ port.addresses, _))

instance (name : CString) : Decidable (table.HasPort name) :=
  inferInstanceAs (Decidable (∃ port ∈ table.rows, _))

end PortTable

section lookups

variable {table : PortTable} {source name : CString}

theorem isIpConfigured_iff :
    isIpConfigured table.rows source = true ↔ table.OwnsBeginning source := by
  unfold isIpConfigured PortTable.OwnsBeginning
  rw [List.any_eq_true]
  refine exists_congr fun port => and_congr_right fun hport => ?_
  have hmatches : ∀ address ∈ port.compared,
      addressMatches source address = true ↔ hostPart address <+: source := fun address haddress =>
    addressMatches_iff (table.masked port hport address (port.compared_subset haddress))
  unfold PortRow.compared at hmatches ⊢
  cases hprimary : port.ip4Address with
  | some address =>
    rw [hprimary] at hmatches
    simpa using hmatches address (List.mem_singleton_self _)
  | none =>
    rw [hprimary] at hmatches
    simp only [List.any_eq_true]
    exact exists_congr fun address => and_congr_right (hmatches address)

/-- What the loop of `getPort` stops at. -/
theorem getPort_stops_iff (port : PortRow) :
    decide (Libc.strncmp name port.name name.length = 0 ∧
      (port.ip4Address.isSome ∨ 1 ≤ port.ip4AddressSecondary.length)) = true ↔
      name <+: port.name ∧ port.addresses ≠ [] := by
  rw [decide_eq_true_iff, Libc.strncmp_length_eq_zero_iff]
  refine and_congr_right fun _ => ?_
  unfold PortRow.addresses
  cases port.ip4Address with
  | some address => simp
  | none => simp [Nat.one_le_iff_ne_zero]

/-- The port that is found is the first with an address whose name begins with the given
one. -/
theorem getPort_eq_some_iff {port : PortRow} :
    getPort table.rows name = some port ↔
      (name <+: port.name ∧ port.addresses ≠ []) ∧
        ∃ before after, table.rows = before ++ port :: after ∧
          ∀ other ∈ before, ¬(name <+: other.name ∧ other.addresses ≠ []) := by
  unfold getPort
  rw [List.find?_eq_some_iff_append, getPort_stops_iff]
  refine and_congr_right fun _ => exists₂_congr fun before after => and_congr_right fun _ => ?_
  refine forall₂_congr fun other _ => ?_
  rw [Bool.not_eq_true', ← Bool.not_eq_true, getPort_stops_iff]

theorem getPort_eq_none_iff :
    getPort table.rows name = none ↔
      ∀ port ∈ table.rows, ¬(name <+: port.name ∧ port.addresses ≠ []) := by
  unfold getPort
  rw [List.find?_eq_none]
  refine forall₂_congr fun port _ => ?_
  rw [getPort_stops_iff]

/-- Where the table has the port, one is found. -/
theorem PortTable.HasPort.getPort (h : table.HasPort name) :
    ∃ port, getPort table.rows name = some port := by
  have ⟨port, hport, hname, haddresses⟩ := h
  apply Option.ne_none_iff_exists'.mp
  intro hnone
  exact getPort_eq_none_iff.mp hnone port hport ⟨hname ▸ List.prefix_rfl, haddresses⟩

/-- The port that is found has the given name. -/
theorem getPort_named (hfirst : table.NamedFirst name) {port : PortRow}
    (h : getPort table.rows name = some port) : port.name = name := by
  have ⟨⟨hbegins, haddresses⟩, before, after, hrows, hbefore⟩ := getPort_eq_some_iff.mp h
  by_contra hne
  have ⟨other, hother, hname, haddresses'⟩ :=
    hfirst before port after hrows haddresses hbegins hne
  exact hbefore other hother ⟨hname ▸ List.prefix_rfl, haddresses'⟩

/-- The split at the port that is found lies before every other port that could be. -/
theorem getPort_before {found port : PortRow} {before after : List PortRow}
    (h : getPort table.rows name = some found) (hrows : table.rows = before ++ port :: after)
    (hport : name <+: port.name ∧ port.addresses ≠ []) : found = port ∨ found ∈ before := by
  have ⟨_, before', after', hrows', hbefore'⟩ := getPort_eq_some_iff.mp h
  rw [hrows] at hrows'
  rcases List.append_eq_append_iff.mp hrows' with ⟨mid, hmid, hrest⟩ | ⟨mid, hmid, hrest⟩
  · cases mid with
    | nil => exact Or.inl (List.cons.inj hrest).1.symm
    | cons first mid =>
      -- the port would stand before the one that is found
      have hfirst := (List.cons.inj hrest).1
      exact absurd hport
        (hbefore' port (hmid ▸ hfirst ▸ List.mem_append_right _ List.mem_cons_self))
  · cases mid with
    | nil => exact Or.inl (List.cons.inj hrest).1
    | cons first mid =>
      have hfirst := (List.cons.inj hrest).1
      exact Or.inr (hmid ▸ hfirst ▸ List.mem_append_right _ List.mem_cons_self)

end lookups

/-! ## What the database may keep -/

/-- There is a way to store any pairs. -/
theorem exists_stored (given : List (CString × CString)) : ∃ stored, Stored given stored := by
  induction given with
  | nil => exact ⟨[], List.Subset.refl _, List.nodup_nil, nofun⟩
  | cons pair given ih =>
    have ⟨stored, hstored⟩ := ih
    by_cases hkey : pair.1 ∈ stored.map Prod.fst
    · refine ⟨stored, List.subset_cons_of_subset _ hstored.subset, hstored.nodup, ?_⟩
      intro other hother
      rcases List.mem_cons.mp hother with heq | hmem
      · rw [heq]
        exact hkey
      · exact hstored.keys other hmem
    · refine ⟨pair :: stored, List.cons_subset_cons _ hstored.subset, ?_, ?_⟩
      · exact List.nodup_cons.mpr ⟨hkey, hstored.nodup⟩
      · intro other hother
        rcases List.mem_cons.mp hother with heq | hmem
        · rw [heq]
          exact List.mem_cons_self
        · exact List.mem_cons_of_mem _ (hstored.keys other hmem)

/-- Any of the pairs may be kept, and stand first. -/
theorem exists_stored_cons {given : List (CString × CString)} {pair : CString × CString}
    (h : pair ∈ given) : ∃ stored, Stored given (pair :: stored) := by
  have ⟨stored, hstored⟩ := exists_stored (given.filter fun other => other.1 ≠ pair.1)
  have hother : ∀ other ∈ stored, other ∈ given ∧ other.1 ≠ pair.1 := by
    intro other hmem
    have hfilter := List.mem_filter.mp (hstored.subset hmem)
    exact ⟨hfilter.1, of_decide_eq_true hfilter.2⟩
  refine ⟨stored, ?_, ?_, ?_⟩
  · exact List.cons_subset.mpr ⟨h, fun other hmem => (hother other hmem).1⟩
  · refine List.nodup_cons.mpr ⟨?_, hstored.nodup⟩
    intro hkey
    have ⟨other, hmem, heq⟩ := List.mem_map.mp hkey
    exact (hother other hmem).2 heq
  · intro other hmem
    by_cases hkey : other.1 = pair.1
    · rw [hkey]
      exact List.mem_cons_self
    · have hfilter : other ∈ given.filter fun other => other.1 ≠ pair.1 :=
        List.mem_filter.mpr ⟨hmem, decide_eq_true hkey⟩
      exact List.mem_cons_of_mem _ (hstored.keys other hfilter)

/-! ## Exactly the configured sources -/

section exact

variable {protocolKeys : SourceInterfaceProtocol → CString} {type : SourceInterfaceProtocol}
  {row : VrfRow} {table : PortTable} {source name : CString}

/-- `set_source_ip` accepts the source exactly where a port has it. -/
def AcceptsOwned (protocolKeys : SourceInterfaceProtocol → CString)
    (type : SourceInterfaceProtocol) (row : VrfRow) (table : PortTable) (source : CString) : Prop :=
  (setSourceIp protocolKeys committedTxn table.rows source type (some row)).written.isSome ↔
    table.Owns source

/-- A row binds a protocol to a port: it has this port and no other for the protocol, and the
protocol is answered with it. -/
structure BoundTo (protocolKeys : SourceInterfaceProtocol → CString)
    (type : SourceInterfaceProtocol) (name : CString) (row : VrfRow) : Prop where
  pairs : ∀ value, (protocolKeys type, value) ∈ row.sourceInterface ↔ value = name
  answer : getConfiguredProtocolSourceLocal protocolKeys type (some row)
    = (true, ⟨some name, .sourceInterface⟩)

/-- `set_source_interface` binds the protocol to the port of the given name if it has an
address, and writes nothing if there is no such port. -/
structure BindsNamed (protocolKeys : SourceInterfaceProtocol → CString)
    (type : SourceInterfaceProtocol) (row : VrfRow) (table : PortTable) (name : CString) :
    Prop where
  bound : table.HasPort name → ∃ written,
    (setSourceInterface protocolKeys committedTxn table.rows name type (some row)).written
      = some written ∧
    ∀ row', Commits row written row' → BoundTo protocolKeys type name row'
  rejected : ¬table.HasPort name →
    (setSourceInterface protocolKeys committedTxn table.rows name type (some row)).written = none

/-- A secondary address that is not looked at is accepted for another address. -/
def PortTable.SecondarySeen (table : PortTable) (source : CString) : Prop :=
  ∀ port ∈ table.rows, port.ip4Address.isSome → ∀ address ∈ port.ip4AddressSecondary,
    hostPart address = source → table.OwnsBeginning source

/-- Where an address that is compared is only the beginning of the source, a port has the
source as well. -/
def PortTable.BeginningOwned (table : PortTable) (source : CString) : Prop :=
  ∀ port ∈ table.rows, ∀ address ∈ port.compared, hostPart address <+: source →
    hostPart address ≠ source → table.Owns source

theorem setSourceIp_written_isSome :
    (setSourceIp protocolKeys committedTxn table.rows source type (some row)).written.isSome ↔
      table.OwnsBeginning source := by
  rw [← isIpConfigured_iff]
  unfold setSourceIp withDefaultVrf finish committedTxn
  cases isIpConfigured table.rows source with
  | true => simp
  | false => simp

theorem acceptsOwned_iff :
    AcceptsOwned protocolKeys type row table source ↔
      table.SecondarySeen source ∧ table.BeginningOwned source := by
  unfold AcceptsOwned
  rw [setSourceIp_written_isSome]
  constructor
  · intro h
    constructor
    · intro port hport hprimary address haddress heq
      exact h.mpr ⟨port, hport, address, List.mem_append_right _ haddress, heq⟩
    · intro port hport address haddress hbegins _
      exact h.mp ⟨port, hport, address, haddress, hbegins⟩
  · rintro ⟨hseen, howned⟩
    constructor
    · rintro ⟨port, hport, address, haddress, hbegins⟩
      by_cases heq : hostPart address = source
      · exact ⟨port, hport, address, port.compared_subset haddress, heq⟩
      · exact howned port hport address haddress hbegins heq
    · rintro ⟨port, hport, address, haddress, heq⟩
      by_cases hcompared : address ∈ port.compared
      · exact ⟨port, hport, address, hcompared, heq ▸ List.prefix_rfl⟩
      · have hskipped := port.skipped haddress hcompared
        exact hseen port hport hskipped.1 address hskipped.2 heq

/-- What `set_source_interface` writes for the port it has found. -/
def boundTo (protocolKeys : SourceInterfaceProtocol → CString) (type : SourceInterfaceProtocol)
    (row : VrfRow) (name : CString) (port : PortRow) : Written where
  sourceIp :=
    if (row.sourceIp (protocolKeys type)).isSome then
      some (updateProtocolSourceIp row name (protocolKeys type) false)
    else none
  sourceInterface := some (addSourceInterface row port (protocolKeys type))

theorem setSourceInterface_written :
    (setSourceInterface protocolKeys committedTxn table.rows name type (some row)).written
      = (getPort table.rows name).map (boundTo protocolKeys type row name) := by
  unfold setSourceInterface withDefaultVrf finish committedTxn
  cases getPort table.rows name with
  | none => rfl
  | some port => rfl

theorem addSourceInterface_given (port : PortRow) (key : CString) :
    (addSourceInterface row port key).given = row.sourceInterface ++ [(key, port.name)] := by
  unfold addSourceInterface SourceInterfaceLists.given
  exact List.take_of_length_le (by simp)

theorem boundTo_sourceIp {port : PortRow} {row' : VrfRow}
    (h : Commits row (boundTo protocolKeys type row name port) row') :
    row'.sourceIp (protocolKeys type) = none := by
  rw [h.sourceIp, boundTo]
  cases hold : row.sourceIp (protocolKeys type) with
  | none => exact hold
  | some source => exact Function.update_self _ _ _

/-- Without a source IP the first pair that is compared equal is the answer. -/
theorem answer_of_find {row' : VrfRow} {pair : CString × CString}
    (hip : row'.sourceIp (protocolKeys type) = none)
    (hpair : row'.sourceInterface.find? (keyMatches (protocolKeys type)) = some pair) :
    getConfiguredProtocolSourceLocal protocolKeys type (some row')
      = (true, ⟨some pair.2, .sourceInterface⟩) := by
  rw [getConfiguredProtocolSourceLocal]
  simp only [hip, hpair]

/-- The protocol is bound to the name exactly where the port has it and no pair that is compared
equal names another one. -/
theorem boundTo_commits_iff (port : PortRow) :
    (∀ row', Commits row (boundTo protocolKeys type row name port) row' →
        BoundTo protocolKeys type name row') ↔
      port.name = name ∧
        ∀ pair ∈ row.sourceInterface, keyMatches (protocolKeys type) pair → pair.2 = name := by
  have hgiven : (addSourceInterface row port (protocolKeys type)).given
      = row.sourceInterface ++ [(protocolKeys type, port.name)] := addSourceInterface_given port _
  have hself : ∀ value, keyMatches (protocolKeys type) (protocolKeys type, value) = true := by
    intro value
    rw [keyMatches, decide_eq_true_iff]
    exact (Libc.strncmp_length_eq_zero_iff _ _).mpr (List.prefix_refl _)
  constructor
  · intro h
    -- the database may put any of the pairs that it is given first
    have hkept : ∀ pair ∈ (addSourceInterface row port (protocolKeys type)).given,
        keyMatches (protocolKeys type) pair → pair.2 = name := by
      intro pair hpair hmatch
      obtain ⟨stored, hstored⟩ := exists_stored_cons hpair
      have hcommits : Commits row (boundTo protocolKeys type row name port)
          ⟨(boundTo protocolKeys type row name port).sourceIp.getD row.sourceIp,
            pair :: stored⟩ := by
        refine ⟨rfl, fun hnone => absurd hnone (by simp [boundTo]), ?_⟩
        rintro lists ⟨⟩
        exact hstored
      have hanswer := (h _ hcommits).answer
      rw [answer_of_find (boundTo_sourceIp hcommits) (List.find?_cons_of_pos hmatch)] at hanswer
      exact Option.some.inj (congrArg (·.2.source) hanswer)
    rw [hgiven] at hkept
    constructor
    · exact hkept (protocolKeys type, port.name)
        (List.mem_append_right _ (List.mem_singleton_self _)) (hself _)
    · exact fun pair hpair => hkept pair (List.mem_append_left _ hpair)
  · rintro ⟨hname, hother⟩ row' hcommits
    have hstored := hcommits.stored _ rfl
    rw [hgiven] at hstored
    have hsub : ∀ pair ∈ row'.sourceInterface, keyMatches (protocolKeys type) pair →
        pair.2 = name := by
      intro pair hpair hmatch
      rcases List.mem_append.mp (hstored.subset hpair) with hold | hnew
      · exact hother pair hold hmatch
      · rw [List.mem_singleton.mp hnew]
        exact hname
    -- the database keeps a pair of the protocol
    have hkey := hstored.keys (protocolKeys type, port.name)
      (List.mem_append_right _ (List.mem_singleton_self _))
    obtain ⟨⟨key, value⟩, hpair, heq⟩ := List.mem_map.mp hkey
    have hkey' : key = protocolKeys type := heq
    subst hkey'
    constructor
    · intro value'
      constructor
      · exact fun hvalue => hsub _ hvalue (hself _)
      · intro hvalue
        rw [hvalue, ← hsub _ hpair (hself _)]
        exact hpair
    · cases hfound : row'.sourceInterface.find? (keyMatches (protocolKeys type)) with
      | none => exact absurd (hself value) (List.find?_eq_none.mp hfound _ hpair)
      | some found =>
        rw [answer_of_find (boundTo_sourceIp hcommits) hfound,
          hsub found (List.mem_of_find?_eq_some hfound) (List.find?_some hfound)]

theorem bindsNamed_iff :
    BindsNamed protocolKeys type row table name ↔
      table.NamedFirst name ∧ (table.HasPort name →
        ∀ pair ∈ row.sourceInterface, keyMatches (protocolKeys type) pair → pair.2 = name) := by
  constructor
  · intro h
    -- the port that is found is the one of that name, and the row has no other
    have hexact : ∀ port, getPort table.rows name = some port → port.name = name ∧
        ∀ pair ∈ row.sourceInterface, keyMatches (protocolKeys type) pair → pair.2 = name := by
      intro port hport
      by_cases hhas : table.HasPort name
      · have ⟨written, hwritten, hcommits⟩ := h.bound hhas
        rw [setSourceInterface_written, hport, Option.map_some] at hwritten
        rw [← Option.some.inj hwritten] at hcommits
        exact (boundTo_commits_iff port).mp hcommits
      · have hrejected := h.rejected hhas
        rw [setSourceInterface_written, hport] at hrejected
        exact absurd hrejected nofun
    constructor
    · intro before port after hrows haddresses hbegins hne
      have hmem : port ∈ table.rows := hrows ▸ List.mem_append_right _ List.mem_cons_self
      cases hfound : getPort table.rows name with
      | none => exact absurd ⟨hbegins, haddresses⟩ (getPort_eq_none_iff.mp hfound port hmem)
      | some found =>
        have hname := (hexact found hfound).1
        rcases getPort_before hfound hrows ⟨hbegins, haddresses⟩ with heq | hbefore
        · exact absurd (heq ▸ hname) hne
        · exact ⟨found, hbefore, hname, (getPort_eq_some_iff.mp hfound).1.2⟩
    · intro hhas
      have ⟨port, hport⟩ := hhas.getPort
      exact (hexact port hport).2
  · rintro ⟨hfirst, hother⟩
    constructor
    · intro hhas
      have ⟨port, hport⟩ := hhas.getPort
      refine ⟨_, by rw [setSourceInterface_written, hport, Option.map_some], ?_⟩
      exact (boundTo_commits_iff port).mpr ⟨getPort_named hfirst hport, hother hhas⟩
    · intro hhas
      rw [setSourceInterface_written, Option.map_eq_none_iff, getPort_eq_none_iff]
      intro port hport hstops
      have ⟨before, after, hrows⟩ := List.append_of_mem hport
      by_cases hname : port.name = name
      · exact hhas ⟨port, hport, hname, hstops.2⟩
      · have ⟨other, hbefore, hname', haddresses⟩ :=
          hfirst before port after hrows hstops.2 hstops.1 hname
        exact hhas ⟨other, hrows ▸ List.mem_append_left _ hbefore, hname', haddresses⟩

/-- The commands accept exactly the configured sources under these conditions: no secondary
address is passed over, no address is the beginning of a source that no port has, no port that
comes first has a name that goes on after the given one, and the protocol has no other port. -/
theorem configuredSources_iff (protocolKeys : SourceInterfaceProtocol → CString)
    (type : SourceInterfaceProtocol) (row : VrfRow) (table : PortTable) (source name : CString) :
    (AcceptsOwned protocolKeys type row table source ↔
        table.SecondarySeen source ∧ table.BeginningOwned source) ∧
      (BindsNamed protocolKeys type row table name ↔
        table.NamedFirst name ∧ (table.HasPort name →
          ∀ pair ∈ row.sourceInterface, keyMatches (protocolKeys type) pair → pair.2 = name)) :=
  ⟨acceptsOwned_iff, bindsNamed_iff⟩

end exact

/-- Port 10 with a primary and a secondary address. -/
def portTen : PortTable where
  rows := [⟨"10".toList, some "10.0.0.1/24".toList, ["20.0.0.1/24".toList]⟩]
  masked := by decide

/-- The secondary address is rejected, 10.0.0.10 passes for 10.0.0.1, and port 10 for port 1. -/
theorem portTen_mistaken :
    ¬AcceptsOwned commandKeys .tftp .empty portTen "20.0.0.1".toList ∧
      ¬AcceptsOwned commandKeys .tftp .empty portTen "10.0.0.10".toList ∧
      ¬BindsNamed commandKeys .tftp .empty portTen ['1'] := by
  refine ⟨fun h => ?_, fun h => ?_, fun h => ?_⟩
  · exact absurd (h.mpr (by decide)) (by decide)
  · exact absurd (h.mp (by decide)) (by decide)
  · exact absurd (h.rejected (by decide)) (by decide)

end SourceInterface
end IpApps
