import IpApps.Dhcpv6r.CacheRuns
import IpApps.Dhcpv6r.ConfigHandlers

/-!
# Changed rows

`dhcpv6r_handle_config_change` adds the servers of the row that the interface does not hold
and flushes those that the row does not list. The flush compares the server in slot `i` with
the element `i` of the row only, once the additions stand behind the old servers, and each
removal moves the last server into the freed slot. It comes out right when the servers to be
removed are exactly those that differ from the row at their own position.
-/

namespace IpApps
namespace Dhcpv6r

open ExceptLoops SwapErase
open scoped List

/-! ## The lists of addresses -/

section addresses

variable {held row : List CString} {a b : CString}

/-- The server of an address of the column `ipv6_ucast_server`. -/
def ucast (a : CString) : ServerKey := (a, none)

theorem ucast_begins_iff (a b : CString) : (ucast a).begins (ucast b) = true ↔ a <+: b :=
  ServerKey.begins_none_iff a b

/-- The servers held after an address of the row was looked at. -/
def takeIn (held : List CString) (a : CString) : List CString :=
  if (∃ x ∈ held, x <+: a) ∨ maxServersPerInterface ≤ held.length then held else held ++ [a]

/-- The addresses of the row that are not held. -/
def newAddresses (held row : List CString) : List CString := row.filter (· ∉ held)

/-- The addresses that differ from the row at their position: they are no beginning of its
element there. -/
def strays (held row : List CString) : List CString :=
  ((held.zip row).filter fun x => ¬x.1 <+: x.2).map Prod.fst

/-- The addresses of the row that are stored. -/
def storedAddresses (held row : List CString) : List CString :=
  (row.foldl takeIn held).drop held.length

/-- What the additions need: no address, held or added before, is a beginning of a new one,
and all of them find room. -/
structure TakesNew (held row : List CString) : Prop where
  free : ∀ a ∈ newAddresses held row, ∀ x ∈ held, ¬x <+: a
  apart : row.Pairwise fun a b => b ∉ held → ¬a <+: b
  room : (held ++ newAddresses held row).length ≤ maxServersPerInterface

theorem newAddresses_cons_of_mem (row : List CString) (ha : a ∈ held) :
    newAddresses held (a :: row) = newAddresses held row := by
  rw [newAddresses, List.filter_cons_of_neg (by simpa using ha)]
  rfl

theorem newAddresses_cons_of_notMem (row : List CString) (ha : a ∉ held) :
    newAddresses held (a :: row) = a :: newAddresses held row := by
  rw [newAddresses, List.filter_cons_of_pos (by simpa using ha)]
  rfl

/-- An address that does not come again makes no difference to what is new later. -/
theorem newAddresses_append_singleton (held : List CString) (ha : a ∉ row) :
    newAddresses (held ++ [a]) row = newAddresses held row := by
  apply List.filter_congr
  intro b hb
  have hne : b ≠ a := fun heq => ha (heq ▸ hb)
  simp [hne]

theorem takeIn_of_mem (ha : a ∈ held) : takeIn held a = held :=
  if_pos (Or.inl ⟨a, ha, List.prefix_rfl⟩)

theorem mem_takeIn (hb : b ∈ takeIn held a) : b ∈ held ∨ b = a := by
  unfold takeIn at hb
  split at hb
  · exact Or.inl hb
  · simpa using hb

theorem mem_foldl_takeIn (hb : b ∈ row.foldl takeIn held) : b ∈ held ∨ b ∈ row := by
  induction row generalizing held with
  | nil => exact Or.inl hb
  | cons a row ih =>
    rcases ih hb with hheld | hrow
    · rcases mem_takeIn hheld with hheld | rfl
      · exact Or.inl hheld
      · exact Or.inr List.mem_cons_self
    · exact Or.inr (List.mem_cons_of_mem _ hrow)

/-- The addresses that are stored stand behind those that were held. -/
theorem foldl_takeIn_eq (held row : List CString) :
    row.foldl takeIn held = held ++ storedAddresses held row := by
  have hprefix : ∀ row held : List CString, held <+: row.foldl takeIn held := by
    intro row
    induction row with
    | nil => exact fun held => List.prefix_rfl
    | cons a row ih =>
      intro held
      refine List.IsPrefix.trans ?_ (ih (takeIn held a))
      unfold takeIn
      split
      · exact List.prefix_rfl
      · exact List.prefix_append held [a]
  obtain ⟨more, hmore⟩ := hprefix row held
  unfold storedAddresses
  rw [← hmore, List.drop_left]

/-- The address that is stored next. -/
theorem storedAddresses_append_one {before : List CString}
    (htake : takeIn (before.foldl takeIn held) a = before.foldl takeIn held ++ [a]) :
    storedAddresses held (before ++ [a]) = storedAddresses held before ++ [a] := by
  have hone : (before ++ [a]).foldl takeIn held = held ++ (storedAddresses held before ++ [a]) := by
    rw [List.foldl_append, List.foldl_cons, List.foldl_nil, htake, foldl_takeIn_eq,
      List.append_assoc]
  unfold storedAddresses at hone ⊢
  rw [hone, List.drop_left]

theorem storedAddresses_append_cons {before : List CString}
    (htake : takeIn (before.foldl takeIn held) a = before.foldl takeIn held ++ [a])
    (after : List CString) : ∃ later, storedAddresses held (before ++ a :: after) =
      storedAddresses held before ++ a :: later := by
  refine ⟨storedAddresses ((before ++ [a]).foldl takeIn held) after, ?_⟩
  have hall : (before ++ a :: after).foldl takeIn held = held ++ (storedAddresses held before ++
      a :: storedAddresses ((before ++ [a]).foldl takeIn held) after) := by
    rw [List.append_cons before, List.foldl_append, foldl_takeIn_eq _ after,
      foldl_takeIn_eq held (before ++ [a]), storedAddresses_append_one htake, List.append_assoc,
      List.append_assoc]
    rfl
  unfold storedAddresses at hall ⊢
  rw [hall, List.drop_left]

theorem mem_storedAddresses (ha : a ∈ storedAddresses held row) : a ∈ row ∧ a ∉ held := by
  induction row generalizing held with
  | nil =>
    unfold storedAddresses at ha
    rw [List.foldl_nil, List.drop_length] at ha
    exact absurd ha List.not_mem_nil
  | cons b row ih =>
    have hstep : storedAddresses held (b :: row) =
        (takeIn held b ++ storedAddresses (takeIn held b) row).drop held.length := by
      rw [← foldl_takeIn_eq]
      rfl
    rw [hstep] at ha
    -- the address is left out where it seems held already or the slots are full
    by_cases hcase : (∃ x ∈ held, x <+: b) ∨ maxServersPerInterface ≤ held.length
    · have htake : takeIn held b = held := if_pos hcase
      rw [htake, List.drop_left] at ha
      exact ⟨List.mem_cons_of_mem b (ih ha).1, (ih ha).2⟩
    · have htake : takeIn held b = held ++ [b] := if_neg hcase
      rw [htake, List.append_assoc, List.drop_left, List.singleton_append, List.mem_cons] at ha
      rcases ha with rfl | ha
      · exact ⟨List.mem_cons_self, fun hmem => hcase (Or.inl ⟨a, hmem, List.prefix_rfl⟩)⟩
      · obtain ⟨hrow, hnot⟩ := ih ha
        exact ⟨List.mem_cons_of_mem b hrow, fun hmem => hnot (List.mem_append_left [b] hmem)⟩

/-- The first address of the row is held. -/
theorem TakesNew.cons_of_mem (ha : a ∈ held) :
    TakesNew held (a :: row) ↔ TakesNew held row := by
  constructor
  · intro h
    have hnew := newAddresses_cons_of_mem row ha
    exact ⟨hnew ▸ h.free, (List.pairwise_cons.mp h.apart).2, hnew ▸ h.room⟩
  · intro h
    have hnew := newAddresses_cons_of_mem row ha
    refine ⟨hnew ▸ h.free, List.pairwise_cons.mpr ⟨?_, h.apart⟩, hnew ▸ h.room⟩
    intro b hb hnot
    exact h.free b (List.mem_filter.mpr ⟨hb, by simpa using hnot⟩) a ha

/-- The first address of the row is new. -/
theorem TakesNew.cons_of_notMem (ha : a ∉ held) (hrow : a ∉ row) :
    TakesNew held (a :: row) ↔ (∀ x ∈ held, ¬x <+: a) ∧ TakesNew (held ++ [a]) row := by
  have hnew := newAddresses_cons_of_notMem row ha
  have hlater := newAddresses_append_singleton held hrow
  -- the first address is new, so the new ones are that one and those new behind it
  have hlen : (held ++ newAddresses held (a :: row)).length =
      (held ++ [a] ++ newAddresses (held ++ [a]) row).length := by
    rw [hnew, hlater, List.append_assoc]
    rfl
  have hne : ∀ b ∈ row, b ≠ a := fun b hb heq => hrow (heq ▸ hb)
  constructor
  · intro h
    obtain ⟨hhead, htail⟩ := List.pairwise_cons.mp h.apart
    refine ⟨h.free a (hnew ▸ List.mem_cons_self), ⟨?_, ?_, hlen ▸ h.room⟩⟩
    · intro b hb x hx
      rw [hlater] at hb
      rcases List.mem_append.mp hx with hx | hx
      · exact h.free b (hnew ▸ List.mem_cons_of_mem _ hb) x hx
      · rw [List.mem_singleton.mp hx]
        obtain ⟨hbrow, hbheld⟩ := List.mem_filter.mp hb
        exact hhead b hbrow (by simpa using hbheld)
    · apply htail.imp
      intro x b hxb hb
      exact hxb fun hmem => hb (List.mem_append_left _ hmem)
  · intro h
    obtain ⟨hfirst, h⟩ := h
    have hfree : ∀ b ∈ newAddresses held row, ∀ x ∈ held ++ [a], ¬x <+: b := hlater ▸ h.free
    refine ⟨?_, List.pairwise_cons.mpr ⟨?_, ?_⟩, hlen ▸ h.room⟩
    · intro b hb x hx
      rw [hnew] at hb
      rcases List.mem_cons.mp hb with rfl | hb
      · exact hfirst x hx
      · exact hfree b hb x (List.mem_append_left _ hx)
    · intro b hb hnot
      exact hfree b (List.mem_filter.mpr ⟨hb, by simpa using hnot⟩) a (by simp)
    · apply List.Pairwise.imp_of_mem ?_ h.apart
      intro x b _ hb hxb hnot
      apply hxb
      simpa [hne b hb] using hnot

/-- Under these conditions the new addresses are appended, in the order of the row. -/
theorem TakesNew.foldl_eq (hnodup : row.Nodup) (h : TakesNew held row) :
    row.foldl takeIn held = held ++ newAddresses held row := by
  induction row generalizing held with
  | nil => exact (List.append_nil held).symm
  | cons a row ih =>
    obtain ⟨harow, hnodup⟩ := List.nodup_cons.mp hnodup
    rw [List.foldl_cons]
    by_cases ha : a ∈ held
    · rw [takeIn_of_mem ha, newAddresses_cons_of_mem row ha]
      exact ih hnodup ((TakesNew.cons_of_mem ha).mp h)
    · have hroom := h.room
      obtain ⟨hfirst, h⟩ := (TakesNew.cons_of_notMem ha harow).mp h
      rw [newAddresses_cons_of_notMem row ha] at hroom ⊢
      rw [List.length_append, List.length_cons] at hroom
      -- nothing held is a beginning of it, and a slot is free
      have htake : takeIn held a = held ++ [a] := by
        apply if_neg
        rintro (⟨x, hx, hxa⟩ | hfull)
        · exact hfirst x hx hxa
        · omega
      rw [htake, ih hnodup h, newAddresses_append_singleton held harow, List.append_assoc]
      rfl

/-- If all of the row is held in the end, they were met. -/
theorem TakesNew.of_subset (hnodup : row.Nodup) (hheld : held.length ≤ maxServersPerInterface)
    (hall : ∀ a ∈ row, a ∈ row.foldl takeIn held) : TakesNew held row := by
  induction row generalizing held with
  | nil =>
    refine ⟨nofun, List.Pairwise.nil, ?_⟩
    rwa [newAddresses, List.filter_nil, List.append_nil]
  | cons a row ih =>
    obtain ⟨harow, hnodup⟩ := List.nodup_cons.mp hnodup
    rw [List.foldl_cons] at hall
    have htail := fun b hb => hall b (List.mem_cons_of_mem a hb)
    by_cases ha : a ∈ held
    · rw [takeIn_of_mem ha] at htail
      exact (TakesNew.cons_of_mem ha).mpr (ih hnodup hheld htail)
    · -- it was taken in, as nothing later could have added it
      have htake : a ∈ takeIn held a := by
        rcases mem_foldl_takeIn (hall a List.mem_cons_self) with htake | hlater
        · exact htake
        · exact absurd hlater harow
      by_cases hcase : (∃ x ∈ held, x <+: a) ∨ maxServersPerInterface ≤ held.length
      · rw [takeIn, if_pos hcase] at htake
        exact absurd htake ha
      · obtain ⟨hfirst, hroom⟩ := not_or.mp hcase
        rw [takeIn, if_neg hcase] at htail
        apply (TakesNew.cons_of_notMem ha harow).mpr
        refine ⟨fun x hx hxa => hfirst ⟨x, hx, hxa⟩, ih hnodup ?_ htail⟩
        rw [List.length_append, List.length_singleton]
        omega

/-! ### Strays -/

theorem zip_take_left (t : ℕ) : (held.take t).zip row = (held.zip row).take t := by
  induction t generalizing held row with
  | zero => rfl
  | succ t ih =>
    cases held with
    | nil => simp
    | cons x held =>
      cases row with
      | nil => simp
      | cons a row => rw [List.take_succ_cons, List.zip_cons_cons, ih]; rfl

theorem strays_take_succ {t : ℕ} (ht : t < held.length) (hrow : t < row.length) :
    strays (held.take (t + 1)) row =
      strays (held.take t) row ++ if held[t] <+: row[t] then [] else [held[t]] := by
  have hget : (held.zip row)[t]? = some (held[t], row[t]) := by
    rw [List.getElem?_zip_eq_some]
    exact ⟨List.getElem?_eq_getElem ht, List.getElem?_eq_getElem hrow⟩
  rw [strays, strays, zip_take_left, zip_take_left, List.take_add_one, hget, Option.toList_some,
    List.filter_append, List.map_append]
  congr 1
  by_cases hcase : held[t] <+: row[t] <;> simp [hcase]

/-- Positions behind the end of the row do not count. -/
theorem strays_take_length : strays (held.take row.length) row = strays held row := by
  rw [strays, strays, zip_take_left, List.take_of_length_le]
  rw [List.length_zip]
  omega

theorem length_strays_take_le (held row : List CString) (t : ℕ) :
    (strays (held.take t) row).length ≤ (strays held row).length := by
  rw [strays, strays, zip_take_left]
  exact (((List.take_sublist t _).filter _).map _).length_le

/-! ### The slots of the flush -/

/-- The slots before round `t` of a flush of `held`: the server that the removal of a stray finds
is gone, and the last one is in its place. -/
def slotsBefore (held row : List CString) : ℕ → List CString
  | 0 => held
  | t + 1 =>
    let slots := slotsBefore held row t
    match slots[t]?, row[t]? with
    | some x, some a =>
      if x <+: a then slots else swapErase slots (slots.findIdx fun z => decide (z <+: x))
    | _, _ => slots

/-- The first address that is a beginning of a stray, when the stray is removed, is the stray. -/
def RemovalsFindOwn (held row : List CString) : Prop :=
  ∀ t x a, (slotsBefore held row t)[t]? = some x → row[t]? = some a → ¬x <+: a →
    ∀ z ∈ (slotsBefore held row t).find? fun z => decide (z <+: x), z = x

theorem slotsBefore_succ_of_begins {t : ℕ} {x : CString}
    (hx : (slotsBefore held row t)[t]? = some x) (ha : row[t]? = some a) (hxa : x <+: a) :
    slotsBefore held row (t + 1) = slotsBefore held row t := by
  rw [slotsBefore]
  simp only [hx, ha, if_pos hxa]

theorem slotsBefore_succ_of_unlike {t : ℕ} {x : CString}
    (hx : (slotsBefore held row t)[t]? = some x) (ha : row[t]? = some a) (hxa : ¬x <+: a) :
    slotsBefore held row (t + 1) = swapErase (slotsBefore held row t)
      ((slotsBefore held row t).findIdx fun z => decide (z <+: x)) := by
  rw [slotsBefore]
  simp only [hx, ha, if_neg hxa]

/-- No stray has another address as a beginning. -/
theorem RemovalsFindOwn.of_clean (hclean : ∀ x ∈ held, ∀ z ∈ held, z <+: x → z = x) :
    RemovalsFindOwn held row := by
  have hsub : ∀ t, slotsBefore held row t ⊆ held := by
    intro t
    induction t with
    | zero => exact List.Subset.refl _
    | succ t ih =>
      rw [slotsBefore]
      split
      · split
        · exact ih
        · exact fun z hz => ih (mem_of_mem_swapErase hz)
      · exact ih
  intro t x a hx _ _ z hz
  have hprefix := List.find?_some (p := fun z => decide (z <+: x)) hz
  exact hclean x (hsub t (List.mem_of_getElem? hx)) z (hsub t (List.mem_of_find?_eq_some hz))
    (of_decide_eq_true hprefix)

end addresses

/-! ## The interface of the row -/

/-- The servers of the interface filed under a name. -/
def State.heldBy (s : State) (portName : CString) : List ServerKey :=
  ((s.interface portName).map Prod.snd).getD []

/-- A change of the interface `portName` alone, whose node is `p` as long as it lives. -/
structure Touches (ovs : Ovs) (s s' : State) (p : NodePtr) (portName : CString) : Prop where
  inv : CacheInv ovs s'
  name : ∀ n, s'.intfs.nodes p = some n → n.portName = portName
  others : ∀ p', p' ≠ p → s'.intfs.nodes p' = s.intfs.nodes p' ∧ s'.keysAt p' = s.keysAt p'

section touches

variable {ovs : Ovs} {s s₁ s' : State} {p : NodePtr} {n : InterfaceNode} {portName : CString}

theorem Touches.refl (h : CacheInv ovs s) (hp : s.intfs.nodes p = some n) :
    Touches ovs s s p n.portName := by
  refine ⟨h, ?_, fun _ _ => ⟨rfl, rfl⟩⟩
  intro m hm
  rw [hp, Option.some.injEq] at hm
  rw [hm]

theorem Touches.trans (h : Touches ovs s s₁ p portName) (h' : Touches ovs s₁ s' p portName) :
    Touches ovs s s' p portName := by
  refine ⟨h'.inv, h'.name, ?_⟩
  intro p' hne
  rw [(h'.others p' hne).1, (h'.others p' hne).2]
  exact h.others p' hne

/-- The other interfaces are as before. -/
theorem Touches.interface_eq (hs : CacheInv ovs s)
    (hold : ∀ n, s.intfs.nodes p = some n → n.portName = portName)
    (h : Touches ovs s s' p portName) {other : CString} (hother : other ≠ portName) :
    s'.interface other = s.interface other := by
  apply Option.ext
  intro intf
  obtain ⟨m, ks⟩ := intf
  rw [h.inv.interface_eq_some_iff, hs.interface_eq_some_iff]
  apply exists_congr
  intro p'
  -- the node that is touched has its port name before and after, and so not the other one
  by_cases hpp : p' = p
  · subst hpp
    apply iff_of_false
    · intro hnode
      exact hother (hnode.2.1 ▸ h.name m hnode.1)
    · intro hnode
      exact hother (hnode.2.1 ▸ hold m hnode.1)
  · rw [(h.others p' hpp).1, (h.others p' hpp).2]

theorem CacheInv.heldBy_eq (h : CacheInv ovs s) (hp : s.intfs.nodes p = some n) :
    s.heldBy n.portName = s.keysAt p := by
  rw [State.heldBy, h.interface_eq hp]
  rfl

/-- The handler up to the two loops: the node of the interface is found, or created. -/
theorem dhcpv6rHandleConfigChange_eq (h : CacheInv ovs s) {rec : DhcpRelayRow} {vrf : CString}
    (hport : rec.port = some portName) (hvrf : rec.vrf = some vrf) :
    ∃ p s₁ n, s₁.intfs.nodes p = some n ∧ s₁.servers = s.servers ∧
      Touches ovs s s₁ p portName ∧ s₁.keysAt p = s.heldBy portName ∧
      (∀ m, s.intfs.nodes p = some m → m.portName = portName) ∧
      dhcpv6rHandleConfigChange ovs s rec true =
        (do
          let s ← dhcpv6rGetUcastEntriesAdded ovs s₁ p rec
          dhcpv6rFlushRemovedUcastEntries ovs s p rec) := by
  unfold dhcpv6rHandleConfigChange
  rw [hport, hvrf]
  -- a port without a node gets one, which holds nothing yet
  cases hfind : s.intfs.shashFind portName with
  | some p =>
    obtain ⟨n, hp, rfl⟩ := (h.intfs.shashFind_eq_some_iff portName p).mp hfind
    have htouch := Touches.refl h hp
    refine ⟨p, s, n, hp, rfl, htouch, (h.heldBy_eq hp).symm, htouch.name, ?_⟩
    simp only [hfind]
    rfl
  | none =>
    have hnew := h.intfs.createNode hfind
    set p := (dhcpv6rCreateIntferfaceNode s.intfs portName).1 with hpnew
    set s₁ : State := ⟨s.servers, (dhcpv6rCreateIntferfaceNode s.intfs portName).2⟩ with hs₁
    have hkeys : ∀ p', s₁.keysAt p' = s.keysAt p' := by
      intro p'
      exact State.keysAt_congr (congrFun hnew.refsAt p') fun _ _ => rfl
    refine ⟨p, s₁, _, hnew.node, rfl, ⟨⟨h.servers, hnew.inv, ?_⟩, ?_, ?_⟩, ?_, ?_, ?_⟩
    · intro q
      exact (h.counted q).trans (hnew.total q).symm
    · intro m hm
      rw [hnew.node, Option.some.injEq] at hm
      rw [← hm]
    · exact fun p' hne => ⟨hnew.others p' hne, hkeys p'⟩
    · have hnone : s.interface portName = none := by
        rw [State.interface, hfind]
      rw [hkeys, State.keysAt, State.serversAt, InterfaceTable.refsAt_eq_nil hnew.absent,
        State.heldBy, hnone]
      rfl
    · intro m hm
      rw [hnew.absent] at hm
      exact absurd hm (by simp)
    · simp only [hfind]
      rfl

end touches

/-! ## The additions -/

/-- The map with an entry for the address. -/
def fileAddress (ovs : Ovs) (m : ServerMap) (a : CString) : ServerMap :=
  if ∃ e ∈ m.serverHashMap, m.keyOf e.2 = some (ucast a) then m
  else (dhcpv6rAddServerEntry ovs m a none).2

/-- The addresses to be stored, one after the other: the first entry that is found for one is its
own, if any is found, and the counter of this entry has room. -/
structure FindsOwn (ovs : Ovs) (m : ServerMap) (new : List CString) : Prop where
  lookup : ∀ earlier a later, new = earlier ++ a :: later →
    ∀ q ∈ (dhcpv6rGetServerEntry ovs (earlier.foldl (fileAddress ovs) m) a none).toOption.join,
      (earlier.foldl (fileAddress ovs) m).keyOf q = some (ucast a)
  counter : ∀ a ∈ new, ∀ q, m.keyOf q = some (ucast a) → m.refs q < 65535

/-- After the first `i` addresses of the row. -/
structure AddedTo (ovs : Ovs) (s₁ : State) (p : NodePtr) (portName : CString)
    (held row : List CString) (i : ℕ) (s : State) : Prop where
  touches : Touches ovs s₁ s p portName
  node : ∃ n, s.intfs.nodes p = some n
  keys : s.keysAt p = ((row.take i).foldl takeIn held).map ucast
  filed : ServerMap.SameEntries s.servers
    ((storedAddresses held (row.take i)).foldl (fileAddress ovs) s₁.servers)
  counter : ∀ a ∈ storedAddresses held row, a ∈ row.drop i →
    ∀ q, s.servers.keyOf q = some (ucast a) → s.servers.refs q < 65535

section additions

variable {ovs : Ovs} {s₁ s : State} {p : NodePtr} {n : InterfaceNode} {portName : CString}
  {held : List CString} {rec : DhcpRelayRow} {m : ServerMap}

/-- An entry of the map with the addresses is an old one or that of an address. -/
theorem foldl_fileAddress_eq (h : m.Inv ovs) (new : List CString) :
    (new.foldl (fileAddress ovs) m).Inv ovs ∧ ∀ q k,
      (new.foldl (fileAddress ovs) m).keyOf q = some k →
        (∃ q, m.keyOf q = some k) ∨ k ∈ new.map ucast := by
  induction new generalizing m with
  | nil => exact ⟨h, fun q k hk => Or.inl ⟨q, hk⟩⟩
  | cons a new ih =>
    -- one address files one key at most, its own
    have hone : (fileAddress ovs m a).Inv ovs ∧ ∀ q k, (fileAddress ovs m a).keyOf q = some k →
        (∃ q, m.keyOf q = some k) ∨ k = ucast a := by
      unfold fileAddress
      split
      · exact ⟨h, fun q k hk => Or.inl ⟨q, hk⟩⟩
      · rename_i hnone
        have hnew : ∀ q, m.keyOf q ≠ some (ucast a) := fun q hq =>
          hnone ⟨_, (h.filed _ q).mpr ⟨_, hq, rfl⟩, hq⟩
        obtain ⟨hinv, hkey, -⟩ := h.addServerEntry hnew
        refine ⟨hinv, fun q k hk => ?_⟩
        change (dhcpv6rAddServerEntry ovs m (ucast a).1 (ucast a).2).2.keyOf q = some k at hk
        rw [hkey] at hk
        by_cases hq : q = m.next
        · rw [hq, Function.update_self, Option.some.injEq] at hk
          exact Or.inr hk.symm
        · rw [Function.update_of_ne hq] at hk
          exact Or.inl ⟨q, hk⟩
    obtain ⟨hinv, hkeys⟩ := ih hone.1
    refine ⟨hinv, fun q k hk => ?_⟩
    rcases hkeys q k hk with ⟨q', hq'⟩ | hmem
    · rcases hone.2 q' k hq' with hold | rfl
      · exact Or.inl hold
      · exact Or.inr List.mem_cons_self
    · exact Or.inr (List.mem_cons_of_mem _ hmem)

/-- No other server of the map, and no other one of the addresses, has a new one as a
beginning. -/
theorem FindsOwn.of_apart {new : List CString} (h : m.Inv ovs)
    (hapart : ∀ a ∈ new, ∀ k, (∃ q, m.keyOf q = some k) ∨ k ∈ new.map ucast →
      (ucast a).begins k = true → k = ucast a)
    (hcounter : ∀ a ∈ new, ∀ q, m.keyOf q = some (ucast a) → m.refs q < 65535) :
    FindsOwn ovs m new := by
  refine ⟨fun earlier a later hnew q hq => ?_, hcounter⟩
  obtain ⟨hinv, hkeys⟩ := foldl_fileAddress_eq h earlier
  have ha : a ∈ new := hnew ▸ List.mem_append_right _ List.mem_cons_self
  have hget := ServerMap.dhcpv6rGetServerEntry_eq hinv (ucast a)
  change dhcpv6rGetServerEntry ovs _ a none = _ at hget
  rw [hget] at hq
  have hfound := List.find?_some (p := fun q =>
    (((earlier.foldl (fileAddress ovs) m).keyOf q).any (ucast a).begins)) hq
  -- what the lookup finds begins with the address, so it is the address
  cases hk : (earlier.foldl (fileAddress ovs) m).keyOf q with
  | none =>
    rw [hk] at hfound
    exact absurd hfound Bool.false_ne_true
  | some k =>
    rw [hk] at hfound
    refine congrArg some (hapart a ha k ?_ hfound)
    rcases hkeys q k hk with hold | hmem
    · exact Or.inl hold
    · refine Or.inr ?_
      rw [hnew, List.map_append]
      exact List.mem_append_left _ hmem

/-- The search of the interface for an address of the row. -/
theorem findHeld_eq (h : CacheInv ovs s) (hp : s.intfs.nodes p = some n) {i : ℕ} {a : CString}
    (ha : rec.ucastServer i = .ok a) {current : List CString}
    (hkeys : s.keysAt p = current.map ucast) :
    ((List.range n.addrCount).anyM fun iter1 => do
      let ipv6Address := (← s.slotServer n iter1).ipv6Address
      return compareServer ipv6Address (← rec.ucastServer i) none none)
        = .ok (decide (∃ x ∈ current, x <+: a)) := by
  have hlen : n.addrCount = (s.serversAt p).length := by
    rw [h.addrCount_eq hp, State.keysAt, List.length_map]
  have hany := anyM_range_eq (fun r => compareServer r.ipv6Address a none none)
    (h.slotServer_eq hp)
  rw [hlen]
  simp only [ha, ok_bind]
  refine hany.trans (congrArg Except.ok ?_)
  -- compare_server is the test for a beginning, as neither side has an egress name
  have hmap : ((s.serversAt p).any fun r => compareServer r.ipv6Address a none none)
      = (s.keysAt p).any fun k => ServerKey.begins (ucast k.1) (ucast a) := by
    rw [State.keysAt, List.any_map]
    rfl
  rw [hmap, hkeys, List.any_map, Bool.eq_iff_iff, List.any_eq_true, decide_eq_true_iff]
  exact exists_congr fun x => and_congr_right fun _ => ucast_begins_iff x a

/-- An address is stored with an entry of its own. -/
theorem SameEntries.fileAddress {m : ServerMap} {s' : State} {q : ServerPtr} {a : CString}
    (h : ServerMap.SameEntries s.servers m) (hinv : s.servers.Inv ovs)
    (hstores : Stores ovs s s' p q (ucast a) (ucast a)) :
    ServerMap.SameEntries s'.servers (fileAddress ovs m a) := by
  unfold Dhcpv6r.fileAddress
  rw [← h.keyOf, ← h.map]
  -- a server that was filed is referenced once more, another one is added
  cases hq : s.servers.keyOf q with
  | none =>
    obtain ⟨habsent, hadd⟩ := hstores.added hq
    rw [if_neg, hadd]
    · exact h.addServerEntry (ucast a)
    · rintro ⟨e, -, he⟩
      exact habsent e.2 he
  | some k =>
    have hkept := hstores.kept (by rw [hq]; simp)
    rcases hstores.source with hsource | ⟨hnone, -⟩
    · rw [if_pos ⟨((ucast a).hash ovs, q), (hinv.filed _ q).mpr ⟨_, hsource, rfl⟩, hsource⟩]
      exact ⟨hkept.map.trans h.map, hkept.keyOf.trans h.keyOf, hkept.next.trans h.next⟩
    · rw [hnone] at hq
      exact absurd hq (by simp)

/-- A round that stores nothing. -/
theorem AddedTo.pass {row : List CString} {i : ℕ} (hi : i < row.length)
    (h : AddedTo ovs s₁ p portName held row i s)
    (htake : takeIn ((row.take i).foldl takeIn held) row[i] = (row.take i).foldl takeIn held) :
    AddedTo ovs s₁ p portName held row (i + 1) s := by
  have hnext : (row.take (i + 1)).foldl takeIn held = (row.take i).foldl takeIn held := by
    rw [List.take_add_one, List.getElem?_eq_getElem hi, Option.toList_some, List.foldl_append]
    exact htake
  have hdrop : row.drop i = row[i] :: row.drop (i + 1) := (List.getElem_cons_drop hi).symm
  have hstored : storedAddresses held (row.take (i + 1)) = storedAddresses held (row.take i) := by
    unfold storedAddresses
    rw [hnext]
  refine ⟨h.touches, h.node, ?_, hstored ▸ h.filed, ?_⟩
  · rw [hnext]
    exact h.keys
  · intro b hb hlater
    exact h.counter b hb (hdrop ▸ List.mem_cons_of_mem row[i] hlater)

/-- A round that stores a new address, with an entry of its own. -/
theorem AddedTo.store {row : List CString} {s' : State} {q : ServerPtr} {i : ℕ}
    (hi : i < row.length) (hnodup : row.Nodup)
    (h : AddedTo ovs s₁ p portName held row i s) (hnew : row[i] ∈ storedAddresses held row)
    (htake : takeIn ((row.take i).foldl takeIn held) row[i]
      = (row.take i).foldl takeIn held ++ [row[i]])
    (hstores : Stores ovs s s' p q (ucast row[i]) (ucast row[i])) :
    AddedTo ovs s₁ p portName held row (i + 1) s' := by
  obtain ⟨n, hp⟩ := h.node
  obtain ⟨n', hp', hname⟩ := hstores.node n hp
  have hnext : (row.take (i + 1)).foldl takeIn held
      = (row.take i).foldl takeIn held ++ [row[i]] := by
    rw [List.take_add_one, List.getElem?_eq_getElem hi, Option.toList_some, List.foldl_append]
    exact htake
  have hdrop : row.drop i = row[i] :: row.drop (i + 1) := (List.getElem_cons_drop hi).symm
  have hfree : s.servers.refs q < 65535 := by
    rcases hstores.source with hsource | ⟨hnone, _⟩
    · exact h.counter row[i] hnew (hdrop ▸ List.mem_cons_self) q hsource
    · rw [ServerMap.refs_eq_zero hnone]
      omega
  refine ⟨h.touches.trans ⟨hstores.inv hfree, ?_, hstores.others⟩, ⟨n', hp'⟩, ?_, ?_, ?_⟩
  · intro m hm
    rw [hp', Option.some.injEq] at hm
    rw [← hm, hname]
    exact h.touches.name n hp
  · rw [hnext, hstores.keys, h.keys, List.map_append]
    rfl
  · have htail : row.take (i + 1) = row.take i ++ [row[i]] := by
      rw [List.take_add_one, List.getElem?_eq_getElem hi, Option.toList_some]
    rw [htail, storedAddresses_append_one htake, List.foldl_append,
      List.foldl_cons, List.foldl_nil]
    exact SameEntries.fileAddress h.filed h.touches.inv.servers hstores
  · intro b hb hlater q' hq'
    -- a later address is another one, and so is its entry
    have hba : b ≠ row[i] := by
      intro heq
      have hdistinct := hnodup.sublist (List.drop_sublist i row)
      rw [hdrop, List.nodup_cons] at hdistinct
      exact hdistinct.1 (heq ▸ hlater)
    rw [hstores.keyOf] at hq'
    have hqq : q' ≠ q := by
      intro heq
      rw [heq, Function.update_self, Option.some.injEq] at hq'
      exact hba (congrArg Prod.fst hq').symm
    rw [Function.update_of_ne hqq] at hq'
    rw [hstores.refs hfree, Function.update_of_ne hqq]
    exact h.counter b hb (hdrop ▸ List.mem_cons_of_mem row[i] hlater) q' hq'

/-- One address of the row. -/
theorem AddedTo.step (hown : FindsOwn ovs s₁.servers (storedAddresses held rec.ipv6UcastServer))
    (hnodup : rec.ipv6UcastServer.Nodup) {i : ℕ} (hi : i < rec.ipv6UcastServer.length)
    (h : AddedTo ovs s₁ p portName held rec.ipv6UcastServer i s) :
    ∃ s', (do
      let n ← s.intfs.node p
      let found ← (List.range n.addrCount).anyM fun iter1 => do
        let ipv6Address := (← s.slotServer n iter1).ipv6Address
        return compareServer ipv6Address (← rec.ucastServer i) none none
      if found then return s
      return (← dhcpv6rStoreAddress ovs s p (← rec.ucastServer i) none).2) = .ok s' ∧
      AddedTo ovs s₁ p portName held rec.ipv6UcastServer (i + 1) s' := by
  set row := rec.ipv6UcastServer with hrow
  set a := row[i] with ha
  set current := (row.take i).foldl takeIn held with hcurrent
  obtain ⟨n, hp⟩ := h.node
  have hinv := h.touches.inv
  have hget : rec.ucastServer i = .ok a := by
    rw [DhcpRelayRow.ucastServer, ← hrow, List.getElem?_eq_getElem hi]
  have hlen : (s.keysAt p).length = current.length := by
    rw [h.keys, List.length_map]
  rw [InterfaceTable.node_eq hp, ok_bind, findHeld_eq hinv hp hget h.keys, ok_bind, hget, ok_bind]
  by_cases hfound : ∃ x ∈ current, x <+: a
  · exact ⟨s, if_pos (decide_eq_true hfound), h.pass hi (if_pos (Or.inl hfound))⟩
  rw [decide_eq_false hfound]
  show ∃ s', (dhcpv6rStoreAddress ovs s p (ucast a).1 (ucast a).2 >>= _) = _ ∧ _
  by_cases hroom : (s.keysAt p).length < maxServersPerInterface
  · obtain ⟨q, s', k, hrun, hstores⟩ := dhcpv6rStoreAddress_eq hinv hp hroom (ucast a)
    have hkeep : takeIn current a = current ++ [a] := by
      apply if_neg
      rintro (hcase | hfull)
      · exact hfound hcase
      · omega
    obtain ⟨later, hstored⟩ := storedAddresses_append_cons hkeep (row.drop (i + 1))
    have hsplit : row.take i ++ a :: row.drop (i + 1) = row := by
      rw [ha, List.getElem_cons_drop, List.take_append_drop]
    rw [hsplit] at hstored
    have hnew : a ∈ storedAddresses held row := by
      rw [hstored]
      exact List.mem_append_right _ List.mem_cons_self
    -- the entry that is taken is the address's own
    have hk : k = ucast a := by
      rcases hstores.source with hsource | ⟨_, hk⟩
      · have hget := hstores.found (by rw [hsource]; simp)
        rw [h.filed.getServerEntry_eq] at hget
        change dhcpv6rGetServerEntry ovs _ a none = _ at hget
        have hkey := hown.lookup _ a later hstored q (by rw [hget]; rfl)
        rw [← h.filed.keyOf, hsource] at hkey
        exact Option.some.inj hkey
      · exact hk
    subst hk
    exact ⟨s', by rw [hrun]; rfl, h.store hi hnodup hnew hkeep hstores⟩
  · have hfull : maxServersPerInterface ≤ current.length := by omega
    rw [dhcpv6rStoreAddress_full hp (by rw [hinv.addrCount_eq hp]; omega)]
    exact ⟨s, rfl, h.pass hi (if_pos (Or.inr hfull))⟩

/-- The whole column. -/
theorem dhcpv6rGetUcastEntriesAdded_eq (hown : FindsOwn ovs s.servers
      (storedAddresses held rec.ipv6UcastServer))
    (hnodup : rec.ipv6UcastServer.Nodup) (h : CacheInv ovs s) (hp : s.intfs.nodes p = some n)
    (hname : n.portName = portName) (hkeys : s.keysAt p = held.map ucast) :
    ∃ s', dhcpv6rGetUcastEntriesAdded ovs s p rec = .ok s' ∧
      Touches ovs s s' p portName ∧ (∃ n', s'.intfs.nodes p = some n') ∧
      s'.keysAt p = (rec.ipv6UcastServer.foldl takeIn held).map ucast := by
  obtain ⟨s', hrun, hadded⟩ := foldlM_range_exists (fun i c hi hc => AddedTo.step hown hnodup hi hc)
    (show AddedTo ovs s p portName held rec.ipv6UcastServer 0 s from
      ⟨hname ▸ Touches.refl h hp, ⟨n, hp⟩, hkeys, by
        rw [List.take_zero, storedAddresses, List.foldl_nil, List.drop_length]
        exact ⟨rfl, rfl, rfl⟩, fun a ha _ => hown.counter a ha⟩)
  refine ⟨s', hrun, hadded.touches, hadded.node, ?_⟩
  rw [hadded.keys, List.take_length]

end additions

/-! ## The flush -/

section flush

variable {ovs : Ovs} {s₁ s s' : State} {p : NodePtr} {n : InterfaceNode} {portName : CString}
  {held current : List CString} {rec : DhcpRelayRow} {rounds t : ℕ}

theorem flushFrom_freed (ovs : Ovs) (rec : DhcpRelayRow) (rounds t : ℕ)
    (hp : s.intfs.nodes p = none) :
    ∃ err, flushFrom ovs p rec rounds t s = .error err := by
  cases rounds with
  | zero => exact ⟨_, rfl⟩
  | succ rounds =>
    refine ⟨.freedNode, ?_⟩
    rw [flushFrom, InterfaceTable.node, hp]
    rfl

theorem flushFrom_end (h : CacheInv ovs s) (hp : s.intfs.nodes p = some n)
    (ht : (s.keysAt p).length ≤ t) : flushFrom ovs p rec (rounds + 1) t s = .ok s := by
  rw [flushFrom, InterfaceTable.node_eq hp, ok_bind]
  exact if_pos (by rwa [h.addrCount_eq hp])

/-- A round that reads the server `k`: it is compared with the element of the row at the
same position as often as the row has elements. -/
theorem flushFrom_round (h : CacheInv ovs s) (hp : s.intfs.nodes p = some n) {k : ServerKey}
    (hk : (s.keysAt p)[t]? = some k) :
    flushFrom ovs p rec (rounds + 1) t s = (do
      let found ← (List.range rec.ipv6UcastServer.length).anyM fun _ => do
        return compareServer k.1 (← rec.ucastServer t) none none
      let s ←
        if found then pure s
        else pure (← dhcpv6rRemoveAddress ovs s p k.1 none).2
      flushFrom ovs p rec rounds (t + 1) s) := by
  obtain ⟨ht, hget⟩ := List.getElem?_eq_some_iff.mp hk
  have hlt : t < (s.serversAt p).length := by rwa [State.keysAt, List.length_map] at ht
  have haddr : (s.serversAt p)[t].ipv6Address = k.1 := by
    rw [← hget]
    simp only [State.keysAt, List.getElem_map]
    rfl
  rw [flushFrom, InterfaceTable.node_eq hp, ok_bind, if_neg (by rw [h.addrCount_eq hp]; omega)]
  show (s.slotServer n t >>= _) = _
  rw [h.slotServer_eq hp t hlt, ok_bind, haddr]

/-- A flush that comes to its end leaves the node, with some of its servers. -/
theorem flushFrom_ok (h : CacheInv ovs s) (hp : s.intfs.nodes p = some n)
    (hname : n.portName = portName) (hplain : ∀ k ∈ s.keysAt p, k.2 = none)
    (hrun : flushFrom ovs p rec rounds t s = .ok s') :
    Touches ovs s s' p portName ∧ (∃ n', s'.intfs.nodes p = some n') ∧
      ∀ k ∈ s'.keysAt p, k ∈ s.keysAt p := by
  induction rounds generalizing s n t with
  | zero => exact absurd hrun (by simp [flushFrom])
  | succ rounds ih =>
    by_cases ht : t < (s.keysAt p).length
    · have hk := List.getElem?_eq_getElem ht
      rw [flushFrom_round h hp hk] at hrun
      obtain ⟨found, _, hrun⟩ := bind_eq_ok hrun
      cases found with
      | true => exact ih h hp hname hplain hrun
      | false =>
        obtain ⟨removed, hremove, hrun⟩ := bind_eq_ok hrun
        rw [← hplain _ (List.getElem_mem ht)] at hremove
        -- a removal that ends has found a server, its own or one that is a beginning of it
        rcases dhcpv6rRemoveAddress_own h hp ht with herr | hok
        · rw [herr] at hremove
          exact absurd hremove (by simp)
        · obtain ⟨s₂, index, q, k', _, _, _, hok, hrem⟩ := hok
          rw [hok] at hremove
          obtain rfl := Except.ok.inj hremove
          have hrun : flushFrom ovs p rec rounds (t + 1) s₂ = .ok s' := hrun
          have hsub : ∀ k ∈ s₂.keysAt p, k ∈ s.keysAt p := by
            intro k hk
            rw [hrem.keys] at hk
            exact mem_of_mem_swapErase hk
          -- with the last server the node goes, and the next round reads it
          by_cases hone : (s.keysAt p).length = 1
          · obtain ⟨err, herr⟩ := flushFrom_freed ovs rec rounds (t + 1) (hrem.goes hone).1
            rw [herr] at hrun
            exact absurd hrun (by simp)
          · obtain ⟨n₂, hp₂, hname₂⟩ := (hrem.stays hone).2 n hp
            obtain ⟨htouch, hnode, hkeys⟩ := ih hrem.inv hp₂ (hname₂.trans hname)
              (fun k hk => hplain k (hsub k hk)) hrun
            refine ⟨Touches.trans ⟨hrem.inv, ?_, hrem.others⟩ htouch, hnode,
              fun k hk => hsub k (hkeys k hk)⟩
            intro m hm
            rw [hp₂, Option.some.injEq] at hm
            rw [← hm, hname₂, hname]
    · rw [flushFrom_end h hp (by omega)] at hrun
      obtain rfl := Except.ok.inj hrun
      exact ⟨hname ▸ Touches.refl h hp, ⟨n, hp⟩, fun k hk => hk⟩

/-- Before round `t`, on an interface that held the addresses `held`: the strays among the
first `t` are gone, and the others are where they were or took the place of one. -/
structure FlushedTo (ovs : Ovs) (s₁ : State) (p : NodePtr) (portName : CString)
    (held row : List CString) (t : ℕ) (current : List CString) (s : State) : Prop where
  touches : Touches ovs s₁ s p portName
  keys : s.keysAt p = current.map ucast
  slots : current = slotsBefore held row t
  split : held ~ current ++ strays (held.take t) row
  ahead : current.drop t <+: held.drop t
  node : current ≠ [] → ∃ n, s.intfs.nodes p = some n
  gone : current = [] → s.intfs.nodes p = none

namespace FlushedTo

variable {row : List CString} (h : FlushedTo ovs s₁ p portName held row t current s)

include h

theorem length_eq : held.length = current.length + (strays (held.take t) row).length := by
  rw [h.split.length_eq, List.length_append]

/-- What round `t` reads. -/
theorem getElem_eq (ht : t < current.length) :
    ∃ ht' : t < held.length, current[t] = held[t] ∧
      current.drop (t + 1) <+: held.drop (t + 1) := by
  have hahead := h.ahead
  have hlen := hahead.length_le
  rw [List.length_drop, List.length_drop] at hlen
  have ht' : t < held.length := by omega
  rw [← List.getElem_cons_drop ht, ← List.getElem_cons_drop ht', List.cons_prefix_cons] at hahead
  exact ⟨ht', hahead⟩

end FlushedTo

/-- The removal of the stray that round `t` reads closes a slot with this address, at most the one
that was read, when the first address that is a beginning of it is the stray itself. -/
theorem FlushedTo.findIdx_eq {row : List CString}
    (h : FlushedTo ovs s₁ p portName held row t current s) (ht : t < current.length)
    (hown : ∀ z ∈ current.find? fun z => decide (z <+: current[t]), z = current[t]) :
    ∃ index, (s.keysAt p).findIdx? (·.begins (ucast current[t])) = some index ∧ index ≤ t ∧
      index = current.findIdx (fun z => decide (z <+: current[t])) ∧
      ∃ hlt : index < current.length, current[index] = current[t] := by
  have hk : (s.keysAt p)[t]? = some (ucast current[t]) := by
    rw [h.keys, List.getElem?_map, List.getElem?_eq_getElem ht]
    rfl
  cases hfind : (s.keysAt p).findIdx? (·.begins (ucast current[t])) with
  | none =>
    have hself := List.findIdx?_eq_none_iff.mp hfind _ (List.mem_of_getElem? hk)
    rw [ServerKey.begins_refl] at hself
    exact absurd hself (by decide)
  | some index =>
    obtain ⟨hlt, hbegins, hfirst⟩ := List.findIdx?_eq_some_iff_getElem.mp hfind
    have hlt' : index < current.length := by
      rwa [h.keys, List.length_map] at hlt
    -- the addresses of the slots are searched in the same order
    simp only [h.keys, List.getElem_map] at hbegins hfirst
    have hprefix : current[index] <+: current[t] := (ucast_begins_iff _ _).mp hbegins
    have hbefore : ∀ j (hj : j < index), ¬current[j] <+: current[t] := fun j hj hpre =>
      hfirst j hj ((ucast_begins_iff _ _).mpr hpre)
    refine ⟨index, rfl, ?_, ?_, hlt', ?_⟩
    · by_contra hgt
      exact hbefore t (by omega) List.prefix_rfl
    · exact ((List.findIdx_eq hlt').mpr ⟨decide_eq_true hprefix, fun j hj =>
        decide_eq_false (hbefore j hj)⟩).symm
    · apply hown
      exact List.find?_eq_some_iff_getElem.mpr ⟨decide_eq_true hprefix, index, hlt', rfl,
        fun j hj => by simpa using hbefore j hj⟩

/-- A round that closes the slot `index` of a stray. -/
theorem FlushedTo.removed {row : List CString} {index : ℕ} {q : ServerPtr} {k : ServerKey}
    (h : FlushedTo ovs s₁ p portName held row t current s) (ht' : t < held.length)
    (hahead : current.drop (t + 1) <+: held.drop (t + 1))
    (hsplit : strays (held.take (t + 1)) row = strays (held.take t) row ++ [held[t]])
    (hp : s.intfs.nodes p = some n) (hle : index ≤ t) (hlt : index < current.length)
    (hstray : current[index] = held[t])
    (hslots : swapErase current index = slotsBefore held row (t + 1))
    (hrem : Removes ovs s s' p index q k) :
    FlushedTo ovs s₁ p portName held row (t + 1) (swapErase current index) s' := by
  have hcount : (s.keysAt p).length = current.length := by
    rw [h.keys, List.length_map]
  have hleft := length_swapErase current index
  refine ⟨h.touches.trans ⟨hrem.inv, ?_, hrem.others⟩, ?_, hslots, ?_, ?_, ?_, ?_⟩
  · intro m hm
    by_cases hone : (s.keysAt p).length = 1
    · rw [(hrem.goes hone).1] at hm
      exact absurd hm (by simp)
    · obtain ⟨m', hm', hname⟩ := (hrem.stays hone).2 n hp
      rw [hm', Option.some.injEq] at hm
      rw [← hm, hname]
      exact h.touches.name n hp
  · rw [hrem.keys, h.keys, map_swapErase]
  · have hperm := perm_cons_swapErase current index hlt
    rw [hstray] at hperm
    calc held ~ current ++ strays (held.take t) row := h.split
      _ ~ held[t] :: swapErase current index ++ strays (held.take t) row := hperm.append_right _
      _ ~ swapErase current index ++ strays (held.take t) row ++ [held[t]] :=
          (List.perm_append_singleton _ _).symm
      _ = swapErase current index ++ strays (held.take (t + 1)) row := by
          rw [hsplit, List.append_assoc]
  · exact (prefix_drop_swapErase current (Nat.lt_succ_of_le hle)).trans hahead
  · intro hrest
    have hone : (s.keysAt p).length ≠ 1 := by
      intro hone
      apply hrest
      apply List.eq_nil_of_length_eq_zero
      omega
    obtain ⟨m', hm', _⟩ := (hrem.stays hone).2 n hp
    exact ⟨m', hm'⟩
  · intro hnil
    rw [hnil, List.length_nil] at hleft
    exact (hrem.goes (by omega)).1

/-- One round within the row, when the removals find the strays. -/
theorem FlushedTo.step (rounds : ℕ)
    (hfinds : RemovalsFindOwn held rec.ipv6UcastServer)
    (h : FlushedTo ovs s₁ p portName held rec.ipv6UcastServer t current s)
    (ht : t < current.length) (hrow : t < rec.ipv6UcastServer.length) :
    ∃ current' s', flushFrom ovs p rec (rounds + 1) t s = flushFrom ovs p rec rounds (t + 1) s' ∧
      FlushedTo ovs s₁ p portName held rec.ipv6UcastServer (t + 1) current' s' := by
  set row := rec.ipv6UcastServer with hrowdef
  obtain ⟨n, hp⟩ := h.node (List.ne_nil_of_length_pos (Nat.zero_lt_of_lt ht))
  obtain ⟨ht', hsame, hahead⟩ := h.getElem_eq ht
  have hinv := h.touches.inv
  have hk : (s.keysAt p)[t]? = some (ucast held[t]) := by
    rw [h.keys, List.getElem?_map, List.getElem?_eq_getElem ht, hsame]
    rfl
  have hget : rec.ucastServer t = .ok row[t] := by
    rw [DhcpRelayRow.ucastServer, ← hrowdef, List.getElem?_eq_getElem hrow]
  have hne : List.range row.length ≠ [] :=
    List.ne_nil_of_length_pos (by rw [List.length_range]; omega)
  have hfound : ((List.range row.length).anyM fun _ => do
      return compareServer (ucast held[t]).1 (← rec.ucastServer t) none none)
        = .ok (ServerKey.begins (ucast held[t]) (ucast row[t])) := by
    rw [anyM_const hne, hget]
    rfl
  have hsplit := strays_take_succ ht' hrow
  have hslot : (slotsBefore held row t)[t]? = some held[t] := by
    rw [← h.slots, List.getElem?_eq_getElem ht, hsame]
  have hrowt : row[t]? = some row[t] := List.getElem?_eq_getElem hrow
  rw [flushFrom_round hinv hp hk, ← hrowdef, hfound, ok_bind]
  by_cases hcase : held[t] <+: row[t]
  · -- the element of the row at this position: the server stays
    rw [(ucast_begins_iff held[t] row[t]).mpr hcase]
    rw [if_pos hcase, List.append_nil] at hsplit
    have hslots := h.slots.trans (slotsBefore_succ_of_begins hslot hrowt hcase).symm
    refine ⟨current, s, rfl, h.touches, h.keys, hslots, ?_, hahead, h.node, h.gone⟩
    rw [hsplit]
    exact h.split
  · have hdiff : ServerKey.begins (ucast held[t]) (ucast row[t]) = false := by
      rw [Bool.eq_false_iff]
      exact mt (ucast_begins_iff held[t] row[t]).mp hcase
    rw [if_neg hcase] at hsplit
    rw [hdiff]
    obtain ⟨index, hfind, hle, hindex, hlt, hstray⟩ := h.findIdx_eq ht
      (by
        rw [hsame, h.slots]
        exact hfinds t _ _ hslot hrowt hcase)
    rw [hsame] at hfind hstray hindex
    have hslots : swapErase current index = slotsBefore held row (t + 1) := by
      rw [slotsBefore_succ_of_unlike hslot hrowt hcase, ← h.slots, hindex]
    obtain ⟨_, q, hq, hkey, _⟩ := dhcpv6rRemoveServerRefEntry_eq hinv hp hfind
    have hfound : (s.keysAt p)[index]? = some (ucast held[t]) := by
      rw [h.keys, List.getElem?_map, List.getElem?_eq_getElem hlt, hstray]
      rfl
    rw [← List.getElem?_eq_getElem, hfound] at hkey
    obtain ⟨s', hrun, hrem⟩ := dhcpv6rRemoveAddress_eq hinv hp hfind hq hkey fun _ => rfl
    refine ⟨swapErase current index, s', ?_,
      h.removed ht' hahead hsplit hp hle hlt hstray hslots hrem⟩
    show (dhcpv6rRemoveAddress ovs s p (ucast held[t]).1 (ucast held[t]).2 >>= _) = _
    rw [hrun]
    rfl

/-- The rounds before `t`, when the loop does not end before. -/
theorem FlushedTo.walk (rounds : ℕ)
    (hfinds : RemovalsFindOwn held rec.ipv6UcastServer)
    (h : FlushedTo ovs s₁ p portName held rec.ipv6UcastServer 0 held s)
    (ht : t ≤ rec.ipv6UcastServer.length)
    (hgoes : ∀ u < t, u + (strays (held.take u) rec.ipv6UcastServer).length < held.length) :
    ∃ current s', flushFrom ovs p rec (t + rounds) 0 s = flushFrom ovs p rec rounds t s' ∧
      FlushedTo ovs s₁ p portName held rec.ipv6UcastServer t current s' := by
  induction t generalizing rounds with
  | zero => exact ⟨held, s, by rw [Nat.zero_add], h⟩
  | succ t ih =>
    obtain ⟨current, s', hrun, hflushed⟩ :=
      ih (rounds + 1) (by omega) fun u hu => hgoes u (by omega)
    have hlen := hflushed.length_eq
    have hmore := hgoes t (by omega)
    -- a server is left for this round, and so is an element of the row
    obtain ⟨current', s'', hround, hflushed'⟩ :=
      hflushed.step rounds hfinds (by omega) (by omega)
    refine ⟨current', s'', ?_, hflushed'⟩
    rw [show t + 1 + rounds = t + (rounds + 1) from by omega, hrun, hround]

/-- Behind the end of the row its column is read out of bounds. -/
theorem flushFrom_pastRow (h : CacheInv ovs s) (hp : s.intfs.nodes p = some n)
    (ht : t < (s.keysAt p).length) (hlisted : rec.ipv6UcastServer ≠ [])
    (hrow : rec.ipv6UcastServer.length ≤ t) :
    flushFrom ovs p rec (rounds + 1) t s = .error .rowBounds := by
  have hget : rec.ucastServer t = .error .rowBounds := by
    rw [DhcpRelayRow.ucastServer, List.getElem?_eq_none hrow]
  have hne : List.range rec.ipv6UcastServer.length ≠ [] := by
    rw [ne_eq, List.range_eq_nil, List.length_eq_zero_iff]
    exact hlisted
  rw [flushFrom_round h hp (List.getElem?_eq_getElem ht), anyM_const hne, hget]
  rfl

/-- The flush leaves exactly the row if the strays are exactly what the row does not list. -/
theorem FlushedTo.reaches
    (hfinds : RemovalsFindOwn held rec.ipv6UcastServer)
    (h : FlushedTo ovs s₁ p portName held rec.ipv6UcastServer 0 held s)
    (hmax : held.length ≤ maxServersPerInterface) (hlisted : rec.ipv6UcastServer ≠ [])
    (hswaps : held ~ rec.ipv6UcastServer ++ strays held rec.ipv6UcastServer) :
    ∃ s', dhcpv6rFlushRemovedUcastEntries ovs s p rec = .ok s' ∧
      Touches ovs s₁ s' p portName ∧ (∃ n, s'.intfs.nodes p = some n) ∧
      s'.keysAt p ~ rec.ipv6UcastServer.map ucast := by
  set row := rec.ipv6UcastServer with hrow
  have hlen : held.length = row.length + (strays held row).length := by
    rw [hswaps.length_eq, List.length_append]
  have hmax : held.length ≤ 8 := hmax
  obtain ⟨current, s', hrun, hflushed⟩ := h.walk (255 - row.length + 1) hfinds
    (Nat.le_refl _) (by
      intro u hu
      have hle := length_strays_take_le held row u
      rw [← hrow] at hu ⊢
      omega)
  have hsplit := hflushed.split
  rw [← hrow, strays_take_length] at hsplit
  -- what is left is a rearrangement of the row, as the strays are those that went
  have hperm : current ~ row := (List.perm_append_right_iff _).mp (hsplit.symm.trans hswaps)
  obtain ⟨n, hp⟩ := hflushed.node fun hnil => hlisted (by
    rw [hnil] at hperm
    exact hperm.nil_eq.symm)
  refine ⟨s', ?_, hflushed.touches, ⟨n, hp⟩, ?_⟩
  · unfold dhcpv6rFlushRemovedUcastEntries
    rw [show 256 = row.length + (255 - row.length + 1) from by omega, hrun]
    apply flushFrom_end hflushed.touches.inv hp
    rw [hflushed.keys, List.length_map, hperm.length_eq]
  · rw [hflushed.keys]
    exact hperm.map _

/-- And only then. -/
theorem FlushedTo.of_reaches
    (hfinds : RemovalsFindOwn held rec.ipv6UcastServer)
    (h : FlushedTo ovs s₁ p portName held rec.ipv6UcastServer 0 held s)
    (hmax : held.length ≤ maxServersPerInterface) (hlisted : rec.ipv6UcastServer ≠ [])
    (hrun : dhcpv6rFlushRemovedUcastEntries ovs s p rec = .ok s')
    (hkeys : s'.keysAt p ~ rec.ipv6UcastServer.map ucast) :
    held ~ rec.ipv6UcastServer ++ strays held rec.ipv6UcastServer := by
  classical
  set row := rec.ipv6UcastServer with hrow
  have hmax : held.length ≤ 8 := hmax
  -- the round at which the loop ends, or the end of the row if it comes before
  have hexists : ∃ t, t = row.length ∨ held.length ≤ t + (strays (held.take t) row).length :=
    ⟨row.length, Or.inl rfl⟩
  obtain ⟨t, hend, hgoes⟩ : ∃ t,
      (t = row.length ∨ held.length ≤ t + (strays (held.take t) row).length) ∧
      ∀ u < t, u ≠ row.length ∧ u + (strays (held.take u) row).length < held.length := by
    refine ⟨Nat.find hexists, Nat.find_spec hexists, ?_⟩
    intro u hu
    have hnot := Nat.find_min hexists hu
    rw [not_or] at hnot
    exact ⟨hnot.1, by omega⟩
  have ht : t ≤ row.length := by
    by_contra hlt
    exact (hgoes row.length (by omega)).1 rfl
  have hbound : t ≤ 8 := by
    by_contra hlt
    have hlast := (hgoes 8 (by omega)).2
    omega
  obtain ⟨current, s₂, hwalk, hflushed⟩ := h.walk (255 - t + 1) hfinds ht
    fun u hu => (hgoes u hu).2
  unfold dhcpv6rFlushRemovedUcastEntries at hrun
  rw [show 256 = t + (255 - t + 1) from by omega, hwalk] at hrun
  have hlen := hflushed.length_eq
  have hcount : (s₂.keysAt p).length = current.length := by
    rw [hflushed.keys, List.length_map]
  by_cases hnil : current = []
  · -- the node was freed
    obtain ⟨err, herr⟩ := flushFrom_freed ovs rec (255 - t + 1) t (hflushed.gone hnil)
    rw [herr] at hrun
    exact absurd hrun (by simp)
  · obtain ⟨n, hp⟩ := hflushed.node hnil
    by_cases hover : t < current.length
    · have hpast : row.length ≤ t := by
        rcases hend with hend | hend
        · omega
        · rw [← hrow] at hlen
          omega
      rw [flushFrom_pastRow hflushed.touches.inv hp (by omega) hlisted hpast] at hrun
      exact absurd hrun (by simp)
    · rw [flushFrom_end hflushed.touches.inv hp (by omega)] at hrun
      obtain rfl := Except.ok.inj hrun
      rw [hflushed.keys] at hkeys
      have hperm : current ~ row := by
        have hfst := hkeys.map Prod.fst
        simpa [ucast, Function.comp_def] using hfst
      have hlength := hperm.length_eq
      have hall : t = row.length := by omega
      have hsplit := hflushed.split
      rw [hall, ← hrow, strays_take_length] at hsplit
      exact hsplit.trans (hperm.append_right _)

end flush

/-! ## The handler -/

/-- What a changed column asks for: no invalid access, the interface holds exactly the
addresses of the row, and is gone without any, and the other interfaces are as before. -/
def ReachesRow (s : State) (portName : CString) (row : List CString)
    (r : Except Fault State) : Prop :=
  ∃ s', r = .ok s' ∧
    (row ≠ [] → ∃ n servers, s'.interface portName = some (n, servers) ∧
      servers ~ row.map ucast) ∧
    (row = [] → s'.interface portName = none) ∧
    ∀ other, other ≠ portName → s'.interface other = s.interface other

/-- The rows that are reached from the addresses `held`. Once the new addresses stand behind
the old ones, those that differ from the row at their position are exactly those, each once,
that the row does not list. -/
structure RowFits (held row : List CString) : Prop where
  listed : row ≠ []
  takes : TakesNew held row
  swaps : held ++ newAddresses held row ~ row ++ strays (held ++ newAddresses held row) row

/-- No address is taken for another one that it is a beginning of: not in the map when a new
one is stored, and not on the interface when a stray is removed. -/
structure TellsApart (ovs : Ovs) (m : ServerMap) (held row : List CString) : Prop where
  finds : FindsOwn ovs m (storedAddresses held row)
  removes : TakesNew held row → RemovalsFindOwn (held ++ newAddresses held row) row

section handler

variable {ovs : Ovs} {s : State} {p : NodePtr} {n : InterfaceNode} {portName vrf : CString}
  {held : List CString} {rec : DhcpRelayRow}

theorem mem_held_append_new {row : List CString} {a : CString} (ha : a ∈ row) :
    a ∈ held ++ newAddresses held row := by
  by_cases hmem : a ∈ held
  · exact List.mem_append_left _ hmem
  · exact List.mem_append_right _ (List.mem_filter.mpr ⟨ha, by simpa using hmem⟩)

/-- The state before the flush, when all new addresses were stored. -/
theorem FlushedTo.start (h : CacheInv ovs s) (hp : s.intfs.nodes p = some n)
    (hkeys : s.keysAt p = held.map ucast) (hne : held ≠ []) :
    FlushedTo ovs s p n.portName held rec.ipv6UcastServer 0 held s := by
  refine ⟨Touches.refl h hp, hkeys, rfl, ?_, List.prefix_rfl, fun _ => ⟨n, hp⟩,
    fun hnil => absurd hnil hne⟩
  rw [List.take_zero]
  exact (List.append_nil held).symm ▸ List.Perm.refl _

/-- As long as no address is taken for another one, the interface reaches the row exactly if
the row lists an address, the new ones are stored, and the strays are what is to be
removed. -/
theorem handleConfigChange_reachesRow_iff (c : Cache ovs) (hport : rec.port = some portName)
    (hvrf : rec.vrf = some vrf) (hplain : ∀ k ∈ c.state.heldBy portName, k.2 = none)
    (hnodup : rec.ipv6UcastServer.Nodup)
    (hclear : TellsApart ovs c.state.servers ((c.state.heldBy portName).map Prod.fst)
      rec.ipv6UcastServer) :
    ReachesRow c.state portName rec.ipv6UcastServer
        (dhcpv6rHandleConfigChange ovs c.state rec true) ↔
      RowFits ((c.state.heldBy portName).map Prod.fst) rec.ipv6UcastServer := by
  obtain ⟨p, s₁, n, hp, hservers, htouch₁, hkeys₁, hold, heq⟩ :=
    dhcpv6rHandleConfigChange_eq c.inv hport hvrf
  set held := (c.state.heldBy portName).map Prod.fst with hheld
  set row := rec.ipv6UcastServer with hrow
  have hkeys : s₁.keysAt p = held.map ucast := by
    have hid : (c.state.heldBy portName).map (ucast ∘ Prod.fst)
        = (c.state.heldBy portName).map id :=
      List.map_congr_left fun k hk => Prod.ext rfl (hplain k hk).symm
    rw [hkeys₁, hheld, List.map_map, hid, List.map_id]
  have hmax : held.length ≤ maxServersPerInterface := by
    have hle := htouch₁.inv.length_keysAt_le (p := p)
    rwa [hkeys, List.length_map] at hle
  obtain ⟨s₂, hadd, htouch₂, ⟨n₂, hp₂⟩, hkeys₂⟩ :=
    dhcpv6rGetUcastEntriesAdded_eq (hservers ▸ hclear.finds) hnodup htouch₁.inv hp
      (htouch₁.name n hp) hkeys
  have hname₂ := htouch₂.name n₂ hp₂
  have htouch := htouch₁.trans htouch₂
  rw [heq, hadd, ok_bind]
  -- the flush of what was added
  have hstart : row ≠ [] → TakesNew held row →
      FlushedTo ovs s₂ p portName (held ++ newAddresses held row) row 0
        (held ++ newAddresses held row) s₂ := by
    intro hne htakes
    rw [← hname₂]
    apply FlushedTo.start htouch₂.inv hp₂
    · rw [hkeys₂, ← hrow, htakes.foldl_eq hnodup]
    · obtain ⟨a, ha⟩ := List.exists_mem_of_ne_nil row hne
      exact List.ne_nil_of_mem (mem_held_append_new ha)
  constructor
  · intro hreaches
    obtain ⟨s', hflush, hlisted, hempty, _⟩ := hreaches
    have hnone : ∀ k ∈ s₂.keysAt p, k.2 = none := by
      intro k hk
      rw [hkeys₂] at hk
      obtain ⟨a, _, rfl⟩ := List.mem_map.mp hk
      rfl
    obtain ⟨htouch', ⟨n', hp'⟩, hsub⟩ := flushFrom_ok htouch₂.inv hp₂ hname₂ hnone hflush
    have hintf := htouch'.inv.interface_eq hp'
    rw [htouch'.name n' hp'] at hintf
    have hne : row ≠ [] := by
      intro hnil
      rw [hempty hnil] at hintf
      exact absurd hintf (by simp)
    obtain ⟨m, servers, hservers', hperm⟩ := hlisted hne
    rw [hintf, Option.some.injEq, Prod.mk.injEq] at hservers'
    obtain ⟨rfl, rfl⟩ := hservers'
    have htakes : TakesNew held row := by
      apply TakesNew.of_subset hnodup hmax
      intro a ha
      have hmem := hsub (ucast a) (hperm.mem_iff.mpr (List.mem_map_of_mem ha))
      rw [hkeys₂] at hmem
      obtain ⟨b, hb, hab⟩ := List.mem_map.mp hmem
      obtain rfl : b = a := congrArg Prod.fst hab
      exact hb
    exact ⟨hne, htakes, (hstart hne htakes).of_reaches (hclear.removes htakes) htakes.room
      hne hflush hperm⟩
  · intro hfits
    obtain ⟨s', hflush, htouch', ⟨n', hp'⟩, hperm⟩ :=
      (hstart hfits.listed hfits.takes).reaches (hclear.removes hfits.takes) hfits.takes.room
        hfits.listed hfits.swaps
    have hintf := htouch'.inv.interface_eq hp'
    rw [htouch'.name n' hp'] at hintf
    refine ⟨s', hflush, fun _ => ⟨n', _, hintf, hperm⟩, fun hnil => absurd hnil hfits.listed, ?_⟩
    intro other hother
    exact (htouch.trans htouch').interface_eq c.inv hold hother

end handler

/-- The cache of an interface with one server. -/
def oneServer : Cache exampleOvs :=
  Cache.ofCalls [.create "1".toList, .store 0 "2001:db8::1".toList none] _ rfl

/-- The only server of an interface is replaced by another one. -/
theorem handleConfigChange_reachesRow_iff_replaced :
    ReachesRow oneServer.state "1".toList ["2001:db8::2".toList]
      (dhcpv6rHandleConfigChange exampleOvs oneServer.state
        ⟨some "1".toList, some "vrf_default".toList, ["2001:db8::2".toList]⟩ true) := by
  have hone : ∀ q k, oneServer.state.servers.keyOf q = some k →
      k = ucast "2001:db8::1".toList := by
    intro q k hk
    have hlt : q < 1 := oneServer.inv.servers.fresh q k hk
    obtain rfl : q = 0 := Nat.lt_one_iff.mp hlt
    exact (Option.some.inj hk).symm
  have hnew : storedAddresses ((oneServer.state.heldBy "1".toList).map Prod.fst)
      ["2001:db8::2".toList] = ["2001:db8::2".toList] := by decide
  have hclear : TellsApart exampleOvs oneServer.state.servers
      ((oneServer.state.heldBy "1".toList).map Prod.fst) ["2001:db8::2".toList] := by
    refine ⟨FindsOwn.of_apart oneServer.inv.servers ?_ ?_,
      fun _ => RemovalsFindOwn.of_clean (by decide)⟩
    · rw [hnew]
      intro a ha k hk hbegins
      rw [List.mem_singleton] at ha
      subst ha
      rcases hk with ⟨q, hq⟩ | hk
      · rw [hone q k hq] at hbegins
        exact absurd hbegins (by decide)
      · exact List.mem_singleton.mp hk
    · rw [hnew]
      intro a ha q hq
      rw [List.mem_singleton] at ha
      subst ha
      exact absurd (hone q _ hq) (by decide)
  have hiff := @handleConfigChange_reachesRow_iff exampleOvs "1".toList "vrf_default".toList
    ⟨some "1".toList, some "vrf_default".toList, ["2001:db8::2".toList]⟩ oneServer rfl rfl
    (by decide) (by decide) hclear
  exact hiff.mpr ⟨by decide, ⟨by decide, by decide, by decide⟩, by decide⟩

/-- The row does not list the last of two servers any more: it is compared with an element
behind the end of the row. -/
theorem flush_reads_past_row :
    ∃ c : Cache exampleOvs,
      c.state.heldBy "1".toList = [("2001:db8::1".toList, none), ("2001:db8::2".toList, none)] ∧
      dhcpv6rHandleConfigChange exampleOvs c.state
        ⟨some "1".toList, some "vrf_default".toList, ["2001:db8::1".toList]⟩ true
          = .error .rowBounds ∧
      ¬ReachesRow c.state "1".toList ["2001:db8::1".toList]
        (dhcpv6rHandleConfigChange exampleOvs c.state
          ⟨some "1".toList, some "vrf_default".toList, ["2001:db8::1".toList]⟩ true) := by
  refine ⟨Cache.ofCalls [.create "1".toList, .store 0 "2001:db8::1".toList none,
    .store 0 "2001:db8::2".toList none] _ rfl, by decide, rfl, ?_⟩
  intro hreaches
  obtain ⟨s', hrun, _⟩ := hreaches
  exact absurd hrun nofun

end Dhcpv6r
end IpApps
