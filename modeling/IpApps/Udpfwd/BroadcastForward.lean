import IpApps.Udpfwd.RequestExact

/-!
# What the forwarder sends, and for whom

A datagram for another port than those of DHCP goes to the servers of its interface that are
configured for that port. On its way the code looks at the port, the interface and the server
array, never at the address the datagram was sent to: what a client sends to the switch itself
goes out like a broadcast.
-/

namespace IpApps
namespace Udpfwd

open Memory Endian ExceptLoops

/-! ## The copies of the loop -/

/-- The datagram carries the `size` bytes of the packet to a server, with nothing changed but
the destination and the checksums. -/
structure ForwardedTo (pkt : Packet) (size : ℕ) (udpDport : UInt16) (server : IpAddress)
    (d : Datagram) : Prop where
  dest : d.sinAddr = server ∧ d.sinPort = udpDport
  length : d.bytes.length = size
  ipDst : d.Has ipDstOff (ipBytes server)
  uhDport : d.Has (udph pkt + uhDportOff) (htonsBytes udpDport.toNat)
  others : ∀ a : ℤ, 0 ≤ a → a < size → ¬AddressedCell (udph pkt) a → d.packet a = pkt a

/-- The packet, or what sending it to servers left in the buffer. -/
def SameDatagram (pkt pkt' : Packet) : Prop := ∀ a, ¬AddressedCell (udph pkt) a → pkt' a = pkt a

section copies

variable {pkt pkt' : Packet} {size : ℕ} {udpDport : UInt16}

/-- The first byte is none of the cells that are set. -/
theorem SameDatagram.udph_eq (h : SameDatagram pkt pkt') (hudph : 20 ≤ udph pkt) :
    udph pkt' = udph pkt := by
  apply udph_congr
  apply h
  unfold AddressedCell ipSumOff ipSrcOff ipDstOff uhDportOff uhUlenOff uhSumOff
  omega

theorem SameDatagram.addressed (h : SameDatagram pkt pkt') (hudph : 20 ≤ udph pkt)
    (server : IpAddress) : SameDatagram pkt (Relay.addressed pkt' server udpDport) := by
  intro a ha
  have hsame := h.udph_eq hudph
  rw [addressed_outside server udpDport (by rwa [hsame]), h a ha]

theorem SameDatagram.forwardedTo (h : SameDatagram pkt pkt') (hudph : 20 ≤ udph pkt)
    {server : IpAddress} {d : Datagram}
    (hbytes : d.bytes = slice (Relay.addressed pkt' server udpDport) 0 size)
    (hdest : d.sinAddr = server ∧ d.sinPort = udpDport) :
    ForwardedTo pkt size udpDport server d := by
  have hsame := h.udph_eq hudph
  refine ⟨hdest, by rw [hbytes, length_slice], ?_, ?_, ?_⟩
  · apply Datagram.has_of_slice hbytes (by decide)
    exact addressed_dst server udpDport (by omega)
  · apply Datagram.has_of_slice hbytes (by unfold uhDportOff; omega)
    rw [← hsame]
    exact addressed_dport server udpDport (by omega)
  · intro a hpos hlt ha
    have hin : a < d.bytes.length := by
      rw [hbytes, length_slice]
      exact hlt
    rw [Datagram.cell hbytes hpos hin]
    exact h.addressed hudph server a ha

/-- Each server on the port gets its copy, in array order: the buffer that the next round
finds is the datagram still, but for the cells that every round sets. -/
theorem sent_forwardLoop (host : Host) (size : ℕ) (interfaceIp : IpAddress) (udpDport : UInt16)
    (hudph : 20 ≤ udph pkt) (ks : List ServerKey) {r : Relay} (h : SameDatagram pkt r.pkt) :
    ∃ ds, (ks.foldl (Relay.forwardToKey host udpDport size interfaceIp) r).sent = r.sent ++ ds ∧
      List.Forall₂ (fun k d => ForwardedTo pkt size udpDport k.1 d)
        (ks.filter (·.2 = udpDport)) ds := by
  have hskip : ∀ r k, k.2 ≠ udpDport →
      Relay.forwardToKey host udpDport size interfaceIp r k = r := fun r k hport => if_pos hport
  refine Relay.sent_foldl hskip ?_ ks h
  intro r k hport hsame
  unfold Relay.forwardToKey
  rw [if_neg (not_not_intro hport)]
  exact ⟨hsame.addressed hudph k.1, _, rfl, hsame.forwardedTo hudph rfl ⟨rfl, rfl⟩⟩

end copies

/-! ## A datagram for the forwarder -/

/-- The IPv4 addresses of the host. -/
def Host.addresses (host : Host) : List IpAddress :=
  match host.getifaddrs with
  | none => []
  | some ifaddr => ifaddr.filterMap fun ifa =>
      match ifa.ifaAddr with
      | .inet ip => some ip
      | _ => none

/-- A received datagram that is for neither DHCP port. IP delivers no packet with a header of
fewer than five words. -/
structure ForwardCall where
  rounds : ℕ
  cfg : FeatureConfig
  host : Host
  size : ℕ
  r : Relay
  headers : 5 ≤ ipHl r.pkt
  notDhcps : UInt16.ofNat (ntohs r.pkt (udph r.pkt + uhDportOff)) ≠ dhcpsPort
  notDhcpc : UInt16.ofNat (ntohs r.pkt (udph r.pkt + uhDportOff)) ≠ dhcpcPort
  linked : Linked r.state
  sent : r.sent = []

namespace ForwardCall

variable (x : ForwardCall)

/-- The destination port. -/
def dport : UInt16 := UInt16.ofNat (ntohs x.r.pkt (udph x.r.pkt + uhDportOff))

/-- The interface the datagram came in on. -/
def ifName : Option CString :=
  if x.r.pktInfo.ipiIfindex = Host.noIfIndex then none
  else x.host.ifIndextoname x.r.pktInfo.ipiIfindex

/-- The servers the datagram is for: those with its port on the interface it came in on. There
is none if the forwarder is disabled, or the interface is unknown or has no address or no
node. -/
def servers : List ServerKey :=
  if ¬x.cfg.enabled .udpBcastForwarder then []
  else
    match x.ifName with
    | none => []
    | some ifName =>
      if x.host.getLowestIpOnInterface ifName = 0 then []
      else
        match x.r.state.interface ifName with
        | none => []
        | some (_, ks) => ks.filter (·.2 = x.dport)

/-- The datagram was sent to the limited broadcast address or to one of the broadcast
addresses of the subnets. -/
def ToBroadcast (broadcasts : List IpAddress) : Prop :=
  ipAt x.r.pkt ipDstOff = ipAddressBcast ∨ ipAt x.r.pkt ipDstOff ∈ broadcasts

/-- The datagram was sent to a unicast address of the switch. -/
def ToSwitch (broadcasts : List IpAddress) : Prop :=
  ipAt x.r.pkt ipDstOff ∈ x.host.addresses ∧ ¬x.ToBroadcast broadcasts

/-- What was sent is one copy for each of the servers, in order. -/
def FansOut (r' : Relay) : Prop :=
  List.Forall₂ (fun k d => ForwardedTo x.r.pkt x.size x.dport k.1 d) x.servers r'.sent

/-- The design of the forwarder: a broadcast goes to the servers it is for, what was sent to the
switch goes nowhere, and no datagram goes anywhere else. -/
def ForwardsBroadcasts (broadcasts : List IpAddress) : Prop :=
  ∃ r', Relay.udpfwdCtrl x.rounds x.cfg x.host x.size x.r = .ok r' ∧
    (x.ToBroadcast broadcasts → x.FansOut r') ∧
    (x.ToSwitch broadcasts → r'.sent = []) ∧
    (x.FansOut r' ∨ r'.sent = [])

theorem udph_ge : 20 ≤ udph x.r.pkt := by
  have hheaders := x.headers
  unfold udph
  omega

/-- The servers of an enabled forwarder are those of the node that forwards. -/
theorem servers_eq (hon : x.cfg.enabled .udpBcastForwarder) : x.servers =
    match Relay.forwardNode x.host x.r with
    | none => []
    | some (_, p) => (x.r.state.keysAt p).filter (·.2 = x.dport) := by
  unfold servers ifName Relay.forwardNode
  rw [if_neg (not_not_intro hon)]
  by_cases hindex : x.r.pktInfo.ipiIfindex = Host.noIfIndex
  · rw [if_pos hindex, if_pos hindex]
  · rw [if_neg hindex, if_neg hindex]
    cases x.host.ifIndextoname x.r.pktInfo.ipiIfindex with
    | none => rfl
    | some ifName =>
      dsimp only
      by_cases hip : x.host.getLowestIpOnInterface ifName = 0
      · rw [if_pos hip, if_pos hip]
      · rw [if_neg hip, if_neg hip]
        -- an interface without a node has no server
        cases hfind : x.r.state.shashFind ifName with
        | none => rw [(interface_eq_none_iff x.linked).mpr hfind, Option.map_none]
        | some p =>
          obtain ⟨n, hp, hname⟩ := (x.linked.shashFind_eq_some_iff _ p).mp hfind
          rw [← hname, interface_eq x.linked hp, Option.map_some]

/-- Whatever its address, the datagram goes to the servers. -/
theorem udpfwdCtrl_fansOut :
    ∃ r', Relay.udpfwdCtrl x.rounds x.cfg x.host x.size x.r = .ok r' ∧ x.FansOut r' := by
  have hport : ¬(x.dport = dhcpsPort ∨ x.dport = dhcpcPort) :=
    not_or_intro x.notDhcps x.notDhcpc
  have hdest : Relay.udpfwdCtrl x.rounds x.cfg x.host x.size x.r =
      if ¬x.cfg.enabled .udpBcastForwarder then .ok x.r
      else Relay.forwardPacket x.host x.dport x.size x.r := if_neg hport
  rw [hdest]
  -- from here on the port decides, and nothing looks at the destination address
  by_cases hon : x.cfg.enabled .udpBcastForwarder
  · rw [if_neg (not_not_intro hon), Relay.forwardPacket_eq x.dport x.linked]
    refine ⟨_, rfl, ?_⟩
    unfold FansOut Relay.forwarded
    rw [x.servers_eq hon]
    cases Relay.forwardNode x.host x.r with
    | none =>
      rw [x.sent]
      exact .nil
    | some found =>
      obtain ⟨ds, hsent, hds⟩ := sent_forwardLoop x.host x.size
        (x.host.getLowestIpOnInterface found.1) x.dport x.udph_ge (x.r.state.keysAt found.2)
        (fun a _ => rfl : SameDatagram x.r.pkt x.r.pkt)
      dsimp only
      rw [hsent, x.sent]
      exact hds
  · refine ⟨x.r, if_pos hon, ?_⟩
    unfold FansOut servers
    rw [if_pos hon, x.sent]
    exact .nil

end ForwardCall

/-- The forwarder meets its design on a datagram exactly if the datagram was not sent to a
unicast address of the switch, or there is no server it is for. -/
theorem forwardsBroadcasts_iff (x : ForwardCall) (broadcasts : List IpAddress) :
    x.ForwardsBroadcasts broadcasts ↔ ¬x.ToSwitch broadcasts ∨ x.servers = [] := by
  obtain ⟨r', hrun, hfans⟩ := x.udpfwdCtrl_fansOut
  constructor
  · intro h
    obtain ⟨r'', hrun', -, hunicast, -⟩ := h
    rw [hrun, Except.ok.injEq] at hrun'
    subst hrun'
    by_cases hswitch : x.ToSwitch broadcasts
    · -- nothing was sent, so there was nobody to send to
      right
      unfold ForwardCall.FansOut at hfans
      rwa [hunicast hswitch, List.forall₂_nil_right_iff] at hfans
    · exact Or.inl hswitch
  · intro h
    refine ⟨r', hrun, fun _ => hfans, fun hswitch => ?_, Or.inl hfans⟩
    unfold ForwardCall.FansOut at hfans
    rwa [h.resolve_left (not_not_intro hswitch), List.forall₂_nil_left_iff] at hfans

/-! ### A query for the switch -/

/-- Interface `1` has the DNS server 10.0.0.2. -/
def dnsCache : Cache :=
  Cache.ofCalls [.create ['1'], .store 0 0x0200000a 53] _ rfl (by decide)

theorem dnsCache_linked : Linked dnsCache.state := dnsCache.inv.linked

/-- A DNS query from a client of interface `1` to the address 10.0.0.1 of the switch. -/
def dnsQuery : ForwardCall where
  rounds := 0
  cfg := ⟨0x0001, .replace, .mac⟩
  host := helperHost
  size := 40
  r :=
    { pkt := store (store (fun _ => 0) 0 [0x45]) 16 ([10, 0, 0, 1] ++ [4, 0, 0, 53])
      pktInfo := ⟨3, 0x0100000a, 0x0100000a⟩
      state := dnsCache.state }
  headers := by decide
  notDhcps := by decide
  notDhcpc := by decide
  linked := dnsCache_linked
  sent := rfl

/-- The query goes on to the server. -/
theorem dnsQuery_forwarded :
    ¬∀ (x : ForwardCall) (broadcasts : List IpAddress), x.ForwardsBroadcasts broadcasts := by
  intro hall
  obtain ⟨r', hrun, -, hunicast, -⟩ := hall dnsQuery [0xff00000a]
  have hswitch : dnsQuery.ToSwitch [0xff00000a] := by
    unfold ForwardCall.ToSwitch ForwardCall.ToBroadcast
    decide
  have hcount : (Relay.udpfwdCtrl dnsQuery.rounds dnsQuery.cfg dnsQuery.host dnsQuery.size
      dnsQuery.r).toOption.map (fun r => r.sent.length) = some 1 := by decide +kernel
  rw [hrun] at hcount
  have hone : r'.sent.length = 1 := Option.some.inj hcount
  rw [hunicast hswitch] at hone
  exact absurd hone (by decide)

end Udpfwd
end IpApps
