import IpApps.Udpfwd.PollExact
import IpApps.Udpfwd.ServerParams

/-!
# What the commands mean

A command edits the entries of its interface. The edit of one command is a gentle change, as long
as no name of an interface begins with that of another, and no helper address is set that is the
address of a forward-protocol server of the interface.
-/

namespace IpApps
namespace Udpfwd

open Vty Vty.ServerRow

/-! ## Commands as edits -/

/-- The configuration after a command on an interface that is carried out. -/
def Vty.ServerCommand.edit (name : CString) (g : Config) : ServerCommand → Config
  | .server (.helperAddress ipAddr) true => ⟨g.relay.add name () ipAddr, g.forwarder⟩
  | .server (.helperAddress ipAddr) false => ⟨g.relay.remove name () ipAddr, g.forwarder⟩
  | .server (.forwardProtocol ipAddr i) true => ⟨g.relay, g.forwarder.add name i ipAddr⟩
  | .server (.forwardProtocol ipAddr i) false => ⟨g.relay, g.forwarder.remove name i ipAddr⟩
  | .bootpGateway gatewayAddress true =>
    ⟨g.relay.setGateway name () (some gatewayAddress), g.forwarder⟩
  | .bootpGateway _ false => ⟨g.relay.setGateway name () none, g.forwarder⟩

section exec

variable {defaultVrfName : CString} {t t' : ServerTables} {vty : Session} {g : Config}
  {command : ServerCommand}

/-- A command that writes the tables edits what they stand for. -/
theorem exec_edit (h : t.Inv defaultVrfName g.relay g.forwarder) (hready : vty.Ready defaultVrfName)
    (haddress : (Libc.inetPton command.address).isSome)
    (hexec : (command.exec defaultVrfName vty t).written = some t') :
    t'.Inv defaultVrfName (command.edit vty.index g).relay
      (command.edit vty.index g).forwarder := by
  cases command with
  | server server set =>
    cases server with
    | helperAddress ipAddr =>
      have ⟨rows, hrows, heq⟩ := Option.map_eq_some_iff.mp hexec
      rw [← heq]
      cases set with
      | true =>
        have ⟨htotal, b, hfree, hedits⟩ := helperSet_written hready hrows
        exact ⟨(h.relay.add htotal haddress hfree hedits).2, h.forwarder⟩
      | false =>
        have ⟨b, hedits⟩ := helperUnset_written h.relay.holds hrows
        exact ⟨h.relay.remove hedits, h.forwarder⟩
    | forwardProtocol ipAddr udpPort =>
      have ⟨rows, hrows, heq⟩ := Option.map_eq_some_iff.mp hexec
      rw [← heq]
      cases set with
      | true =>
        have ⟨htotal, b, hfree, hedits⟩ := forwarderSet_written hready hrows
        exact ⟨h.relay, (h.forwarder.add htotal haddress hfree hedits).2⟩
      | false =>
        have ⟨b, hedits⟩ := forwarderUnset_written h.forwarder.holds hrows
        exact ⟨h.relay, h.forwarder.remove hedits⟩
  | bootpGateway gatewayAddress set =>
    have ⟨rows, hrows, heq⟩ := Option.map_eq_some_iff.mp hexec
    rw [← heq]
    cases set with
    | true =>
      have ⟨b, hedits⟩ := gatewaySet_written hready hrows
      exact ⟨h.relay.setGateway hedits, h.forwarder⟩
    | false =>
      have ⟨b, hedits⟩ := gatewayUnset_written hrows
      exact ⟨h.relay.setGateway hedits, h.forwarder⟩

end exec

/-! ## Entries after an edit -/

section entries

variable {ι : Type} [DecidableEq ι] {g : Entries ι} {name other : CString} {i j : ι}
  {ipAddr : CString} {id : IpAddress}

theorem Entries.add_apply :
    g.add name i ipAddr (other, j) =
      if (other, j) = (name, i) then (insert ipAddr (g (name, i)).1, (g (name, i)).2)
      else g (other, j) := by
  unfold Vty.Entries.add
  rw [Function.update_apply]

theorem Entries.remove_apply :
    g.remove name i ipAddr (other, j) =
      if (other, j) = (name, i) then ((g (name, i)).1.erase ipAddr, (g (name, i)).2)
      else g (other, j) := by
  unfold Vty.Entries.remove
  rw [Function.update_apply]

theorem Entries.setGateway_apply {gateway : Option CString} :
    g.setGateway name i gateway (other, j) =
      if (other, j) = (name, i) then ((g (name, i)).1, gateway) else g (other, j) := by
  unfold Vty.Entries.setGateway
  rw [Function.update_apply]

theorem lists_add :
    Lists (g.add name i ipAddr) other j id ↔
      Lists g other j id ∨ ((other, j) = (name, i) ∧ serverAddress ipAddr = some id) := by
  unfold Lists
  rw [Entries.add_apply]
  by_cases hkey : (other, j) = (name, i)
  · obtain ⟨rfl, rfl⟩ := Prod.mk.inj hkey
    rw [if_pos rfl]
    simp only [Finset.mem_insert, or_and_right, exists_or, exists_eq_left, true_and]
    exact or_comm
  · rw [if_neg hkey]
    simp [hkey]

theorem lists_remove (h : Lists (g.remove name i ipAddr) other j id) : Lists g other j id := by
  obtain ⟨server, hserver, hid⟩ := h
  rw [Entries.remove_apply] at hserver
  split at hserver
  · rename_i hkey
    obtain ⟨rfl, rfl⟩ := Prod.mk.inj hkey
    exact ⟨server, Finset.mem_of_mem_erase hserver, hid⟩
  · exact ⟨server, hserver, hid⟩

/-- Only the address that is removed is lost. -/
theorem lists_remove_or (name : CString) (i : ι) (ipAddr : CString) (h : Lists g other j id) :
    Lists (g.remove name i ipAddr) other j id ∨
      ((other, j) = (name, i) ∧ serverAddress ipAddr = some id) := by
  obtain ⟨server, hserver, hid⟩ := h
  by_cases hlost : (other, j) = (name, i) ∧ server = ipAddr
  · exact Or.inr ⟨hlost.1, hlost.2 ▸ hid⟩
  · refine Or.inl ⟨server, ?_, hid⟩
    rw [Entries.remove_apply]
    split
    · rename_i hkey
      obtain ⟨rfl, rfl⟩ := Prod.mk.inj hkey
      exact Finset.mem_erase.mpr ⟨fun heq => hlost ⟨rfl, heq⟩, hserver⟩
    · exact hserver

theorem lists_setGateway {gateway : Option CString} :
    Lists (g.setGateway name i gateway) other j id ↔ Lists g other j id := by
  unfold Lists
  rw [Entries.setGateway_apply]
  split
  · rename_i hkey
    obtain ⟨rfl, rfl⟩ := Prod.mk.inj hkey
    exact Iff.rfl
  · exact Iff.rfl

end entries

/-! ## Small changes -/

/-- A change of which each interface either gains servers or loses one of them at most. -/
structure SmallChange (old new : Config) : Prop where
  mono : (∀ name k, old.Serves name k → new.Serves name k) ∨
    (∀ name k, new.Serves name k → old.Serves name k)
  lost : ∀ name, AtMost 1 fun k => old.Serves name k ∧ ¬new.Serves name k
  shared : ∀ name id, Lists new.relay name () id →
    Lists old.relay name () id ∨ ∀ k, old.Serves name k → k.1 ≠ id

/-- No name of an interface begins with the name of another one. -/
def PrefixFree (ports : Finset CString) : Prop :=
  ∀ name ∈ ports, ∀ name' ∈ ports, name' <+: name → name' = name

theorem AtMost.none {n : ℕ} {P : ServerKey → Prop} (h : ∀ k, ¬P k) : AtMost n P :=
  ⟨∅, Nat.zero_le n, fun k hk => absurd hk (h k)⟩

theorem AtMost.unique {P : ServerKey → Prop} (h : ∀ k k', P k → P k' → k = k') : AtMost 1 P := by
  by_cases hsome : ∃ k, P k
  · obtain ⟨k, hk⟩ := hsome
    exact ⟨{k}, Nat.le_refl 1, fun k' hk' => Finset.mem_singleton.mpr (h k' k hk' hk)⟩
  · exact .none fun k hk => hsome ⟨k, hk⟩

section small

variable {old new : Config} {name : CString} {command : ServerCommand}

theorem SmallChange.refl (g : Config) : SmallChange g g where
  mono := Or.inl fun _ _ h => h
  lost _ := .none fun _ h => h.2 h.1
  shared _ _ h := Or.inl h

/-- The helper address that a command sets is not the address of a forward-protocol server among
those that the interface has. -/
def Vty.ServerCommand.Unshared (serves : ServerKey → Prop) : ServerCommand → Prop
  | .server (.helperAddress ipAddr) true =>
    ∀ k, serves k → k.2 ≠ dhcpsPort → serverAddress ipAddr ≠ some k.1
  | _ => True

/-- A change of one of the tables only, by which servers are added. -/
theorem SmallChange.of_grows (hgrows : ∀ name k, old.Serves name k → new.Serves name k)
    (hshared : ∀ name id, Lists new.relay name () id →
      Lists old.relay name () id ∨ ∀ k, old.Serves name k → k.1 ≠ id) : SmallChange old new where
  mono := Or.inl hgrows
  lost name := .none fun k hk => hk.2 (hgrows name k hk.1)
  shared := hshared

/-- The edit of a command is a small change. -/
theorem edit_small (hunshared : command.Unshared (old.Serves name)) :
    SmallChange old (command.edit name old) := by
  cases command with
  | server server set =>
    cases server with
    | helperAddress ipAddr =>
      cases set with
      | true =>
        refine .of_grows (fun other k hk => ?_) fun other id hid => ?_
        · exact hk.imp_left fun h => ⟨h.1, lists_add.mpr (Or.inl h.2)⟩
        · rcases lists_add.mp hid with hold | ⟨hkey, hip⟩
          · exact Or.inl hold
          · obtain rfl := (Prod.mk.inj hkey).1
            by_cases hold : Lists old.relay other () id
            · exact Or.inl hold
            · refine Or.inr fun k hk heq => ?_
              by_cases hport : k.2 = dhcpsPort
              · rcases hk with hhelper | hforward
                · exact hold (heq ▸ hhelper.2)
                · exact hforward.1 hport
              · exact hunshared k hk hport (heq ▸ hip)
      | false =>
        refine ⟨Or.inr fun other k hk => hk.imp_left fun h => ⟨h.1, lists_remove h.2⟩,
          fun other => ?_,
          fun other id hid => Or.inl (lists_remove hid)⟩
        -- only the helper with the address of the command goes
        have hgone : ∀ k, old.Serves other k → ¬((ServerCommand.server (.helperAddress ipAddr)
            false).edit name old).Serves other k →
            k.2 = dhcpsPort ∧ serverAddress ipAddr = some k.1 := by
          intro k hold hlost
          rcases hold with hhelper | hforward
          · have hout := (lists_remove_or name () ipAddr hhelper.2).resolve_left fun hkept =>
              hlost (Or.inl ⟨hhelper.1, hkept⟩)
            exact ⟨hhelper.1, hout.2⟩
          · exact absurd (Or.inr hforward) hlost
        refine .unique fun k k' hk hk' => ?_
        obtain ⟨hport, hip⟩ := hgone k hk.1 hk.2
        obtain ⟨hport', hip'⟩ := hgone k' hk'.1 hk'.2
        rw [hip, Option.some_inj] at hip'
        exact Prod.ext hip' (hport.trans hport'.symm)
    | forwardProtocol ipAddr i =>
      cases set with
      | true =>
        refine .of_grows (fun other k hk => ?_) fun other id hid => Or.inl hid
        exact hk.imp_right fun h => ⟨h.1, lists_add.mpr (Or.inl h.2)⟩
      | false =>
        refine ⟨Or.inr fun other k hk => hk.imp_right fun h => ⟨h.1, lists_remove h.2⟩,
          fun other => ?_, fun other id hid => Or.inl hid⟩
        -- only the server with the address and the port of the command goes
        have hgone : ∀ k, old.Serves other k → ¬((ServerCommand.server (.forwardProtocol ipAddr i)
            false).edit name old).Serves other k →
            (k.2.toNat : ℤ) = i ∧ serverAddress ipAddr = some k.1 := by
          intro k hold hlost
          rcases hold with hhelper | hforward
          · exact absurd (Or.inl hhelper) hlost
          · have hout := (lists_remove_or name i ipAddr hforward.2).resolve_left fun hkept =>
              hlost (Or.inr ⟨hforward.1, hkept⟩)
            exact ⟨(Prod.mk.inj hout.1).2, hout.2⟩
        refine .unique fun k k' hk hk' => ?_
        obtain ⟨hport, hip⟩ := hgone k hk.1 hk.2
        obtain ⟨hport', hip'⟩ := hgone k' hk'.1 hk'.2
        rw [hip, Option.some_inj] at hip'
        refine Prod.ext hip' ?_
        rw [← hport', Nat.cast_inj, UInt16.toNat_inj] at hport
        exact hport
  | bootpGateway gatewayAddress set =>
    -- a gateway is no server
    have hsame : ∀ other k, ((ServerCommand.bootpGateway gatewayAddress set).edit name old).Serves
        other k ↔ old.Serves other k := by
      intro other k
      cases set <;> exact or_congr_left (and_congr_right fun _ => lists_setGateway)
    refine .of_grows (fun other k hk => (hsame other k).mpr hk) fun other id hid => Or.inl ?_
    cases set <;> exact lists_setGateway.mp hid

end small

/-! ## Configurations of the interfaces -/

/-- A gateway that is set denotes an address. -/
def Vty.ServerCommand.GatewayDenotes : ServerCommand → Prop
  | .bootpGateway gatewayAddress true => (serverAddress gatewayAddress).isSome
  | _ => True

theorem Config.empty_proper (ports : Finset CString) : Config.empty.Proper ports where
  relay _ _ := rfl
  forwarder _ _ _ := rfl
  number _ _ h := absurd rfl h
  gateways _ _ h := by cases h

section proper

variable {ports : Finset CString} {g : Config} {name : CString} {command : ServerCommand}

/-- A change of a relay entry of an interface. -/
theorem Config.Proper.withRelay (h : g.Proper ports) (hname : name ∈ ports)
    {relay : Entries Unit}
    (hothers : ∀ other, other ≠ name → relay (other, ()) = g.relay (other, ()))
    (hgateway : ∀ gw, (relay (name, ())).2 = some gw → (serverAddress gw).isSome) :
    Config.Proper ⟨relay, g.forwarder⟩ ports where
  relay other hother := by
    have hne : other ≠ name := fun heq => hother (heq ▸ hname)
    exact (hothers other hne).trans (h.relay other hother)
  forwarder := h.forwarder
  number := h.number
  gateways other gw hgw := by
    by_cases heq : other = name
    · subst heq
      exact hgateway gw hgw
    · refine h.gateways other gw ?_
      rw [← hothers other heq]
      exact hgw

/-- A change of a forwarder entry of an interface. -/
theorem Config.Proper.withForwarder (h : g.Proper ports) (hname : name ∈ ports) {i : ℤ}
    {forwarder : Entries ℤ}
    (hothers : ∀ other j, (other, j) ≠ (name, i) → forwarder (other, j) = g.forwarder (other, j))
    (hnumber : (forwarder (name, i)).1 ≠ ∅ →
      ∃ udpPort : UInt16, i = udpPort.toNat ∧ udpPort ≠ dhcpsPort) :
    Config.Proper ⟨g.relay, forwarder⟩ ports where
  relay := h.relay
  forwarder other j hother := by
    have hne : (other, j) ≠ (name, i) := fun heq => hother ((Prod.mk.inj heq).1 ▸ hname)
    exact (congrArg Prod.fst (hothers other j hne)).trans (h.forwarder other j hother)
  number other j hne := by
    by_cases heq : (other, j) = (name, i)
    · obtain ⟨rfl, rfl⟩ := Prod.mk.inj heq
      exact hnumber hne
    · refine h.number other j fun hempty => hne ?_
      exact (congrArg Prod.fst (hothers other j heq)).trans hempty
  gateways := h.gateways

/-- A command on one of the interfaces keeps the configuration proper. -/
theorem edit_proper (h : g.Proper ports) (hname : name ∈ ports)
    (hnumber : ∀ ipAddr i set, command = .server (.forwardProtocol ipAddr i) set →
      ∃ udpPort : UInt16, i = udpPort.toNat ∧ udpPort ≠ dhcpsPort)
    (hgateway : command.GatewayDenotes) : (command.edit name g).Proper ports := by
  -- the command is about one interface
  have hne : ∀ {other : CString}, other ≠ name → (other, ()) ≠ (name, ()) :=
    fun hother heq => hother (Prod.mk.inj heq).1
  cases command with
  | server server set =>
    cases server with
    | helperAddress ipAddr =>
      cases set with
      | true =>
        refine h.withRelay hname (fun other hother => ?_) fun gw hgw => h.gateways name gw ?_
        · rw [Entries.add_apply, if_neg (hne hother)]
        · rw [Entries.add_apply, if_pos rfl] at hgw
          exact hgw
      | false =>
        refine h.withRelay hname (fun other hother => ?_) fun gw hgw => h.gateways name gw ?_
        · rw [Entries.remove_apply, if_neg (hne hother)]
        · rw [Entries.remove_apply, if_pos rfl] at hgw
          exact hgw
    | forwardProtocol ipAddr i =>
      have hport := hnumber ipAddr i set rfl
      cases set with
      | true =>
        refine h.withForwarder hname (fun other j hother => ?_) fun _ => hport
        rw [Entries.add_apply, if_neg hother]
      | false =>
        refine h.withForwarder hname (fun other j hother => ?_) fun _ => hport
        rw [Entries.remove_apply, if_neg hother]
  | bootpGateway gatewayAddress set =>
    cases set with
    | true =>
      refine h.withRelay hname (fun other hother => ?_) fun gw hgw => ?_
      · rw [Entries.setGateway_apply, if_neg (hne hother)]
      · rw [Entries.setGateway_apply, if_pos rfl, Option.some_inj] at hgw
        rw [← hgw]
        exact hgateway
    | false =>
      refine h.withRelay hname (fun other hother => ?_) fun gw hgw => ?_
      · rw [Entries.setGateway_apply, if_neg (hne hother)]
      · rw [Entries.setGateway_apply, if_pos rfl] at hgw
        cases hgw

end proper

/-! ## Gentle changes -/

section gentle

variable {defaultVrfName : CString} {ports : Finset CString} {survivors : Survivors}
  {old new : Config}

/-- An interface with servers is one of the interfaces. -/
theorem Config.Proper.mem_ports {g : Config} (h : g.Proper ports) {name : CString} {k : ServerKey}
    (hk : g.Serves name k) : name ∈ ports := by
  by_contra hnot
  rcases hk with hhelper | hforward
  · exact not_lists_of_empty (congrArg Prod.fst (h.relay name hnot)) k.1 hhelper.2
  · exact not_lists_of_empty (h.forwarder name _ hnot) k.1 hforward.2

/-- From empty tables every change is gentle. -/
theorem Gentle.of_empty {t : ServerTables} (hnew : t.Inv defaultVrfName new.relay new.forwarder) :
    Gentle defaultVrfName survivors Config.empty new where
  relayPrefix _ _ _ hne := absurd rfl hne
  recreated _ _ _ := ⟨fun hne => absurd rfl hne, fun hne => absurd rfl hne⟩
  shared name id _ := Or.inr fun k hk => absurd hk (not_serves_empty name k)
  helperLeft name _ hsome := absurd hsome fun ⟨k, hk⟩ => not_serves_empty name k hk
  staleRoom name _ := .none fun k hk => not_serves_empty name k hk.1
  forwarderPrefix name _ k _ hk := absurd hk (not_serves_empty name k)
  forwarderLeft name _ _ _ _ _ hsome := absurd hsome fun ⟨id, hid⟩ => not_serves_empty name _ hid
  room name := by
    refine ((atMost_helpers hnew.relay name).union (atMost_forwarders hnew.forwarder name)).mono
      fun k hk => ?_
    rcases hk with hserves | hold
    · exact hserves.imp_right fun h => h
    · exact absurd hold.1 (not_serves_empty name k)

/-- A small change is gentle if no name of an interface begins with that of another one, and the
rows that are left have survived. -/
theorem SmallChange.gentle (h : SmallChange old new) {t t' : ServerTables}
    (hold : t.Inv defaultVrfName old.relay old.forwarder)
    (hnew : t'.Inv defaultVrfName new.relay new.forwarder) (hports : PrefixFree ports)
    (holdp : old.Proper ports) (hnewp : new.Proper ports)
    (hsurvive : ∀ name, old.relay (name, ()) ≠ (∅, none) → new.relay (name, ()) ≠ (∅, none) →
      survivors.relay (interfaceKey defaultVrfName name ())) :
    Gentle defaultVrfName survivors old new where
  relayPrefix name name' hprefix hne hempty := by
    by_contra hne'
    have hname : name ∈ ports := by
      by_contra hnot
      exact hne (holdp.relay name hnot)
    have hname' : name' ∈ ports := by
      by_contra hnot
      exact hne' (hnewp.relay name' hnot)
    -- no name is a beginning of another, so the row is that of the interface itself
    rw [hports name hname name' hname' hprefix] at hne'
    exact hne' hempty
  recreated name hfresh hne := by
    have hempty : old.relay (name, ()) = (∅, none) := by
      by_contra hcase
      exact hfresh (hsurvive name hcase hne)
    rw [hempty]
    exact ⟨fun hcase => absurd rfl hcase, fun hcase => absurd rfl hcase⟩
  shared := h.shared
  helperLeft name _ hsome hall id hid := by
    obtain ⟨k, hk⟩ := hsome
    -- the change adds only or removes only, so nothing is lost where something is gained
    rcases h.mono with hgrows | hshrinks
    · obtain ⟨hport, hnot⟩ := hall k hk
      rcases hgrows name k hk with hhelper | hforward
      · exact hnot hhelper.2
      · exact hforward.1 hport
    · have hserves := hshrinks name (id, dhcpsPort) ((Config.serves_helper new name).mpr hid)
      exact (hall _ hserves).2 hid
  staleRoom name _ := by
    refine (((h.lost name).union (atMost_forwarders hold.forwarder name)).le
      (by decide : 1 + 8 ≤ 15)).mono fun k hk => ?_
    rcases hk.1 with hhelper | hforward
    · refine Or.inl ⟨hk.1, fun hcase => ?_⟩
      rcases hcase with hkept | hforward
      · exact hk.2 hkept.2
      · exact hforward.1 hhelper.1
    · exact Or.inr hforward
  forwarderPrefix name name' k hprefix hk hport hk' := by
    have heq := hports name (holdp.mem_ports hk) name' (hnewp.mem_ports hk') hprefix
    exact (heq ▸ hk').entry_ne hport
  forwarderLeft name _ _ hall udpPort hport hsome id hid := by
    rcases h.mono with hgrows | hshrinks
    · obtain ⟨id', hid'⟩ := hsome
      exact hall _ hid' hport (hgrows name _ hid')
    · exact hall _ (hshrinks name _ hid) hport hid
  room name := by
    have hunion : ∀ g : Config, ∀ {t : ServerTables}, t.Inv defaultVrfName g.relay g.forwarder →
        AtMost maxUdpBcastServerPerInterface (g.Serves name) := fun g t ht =>
      (atMost_helpers ht.relay name).union (atMost_forwarders ht.forwarder name)
    rcases h.mono with hgrows | hshrinks
    · refine (hunion new hnew).mono fun k hk => ?_
      exact hk.elim (fun hserves => hserves) fun hcase => hgrows name k hcase.1
    · refine (hunion old hold).mono fun k hk => ?_
      exact hk.elim (fun hserves => hshrinks name k hserves) fun hcase => hcase.1

end gentle

end Udpfwd
end IpApps
