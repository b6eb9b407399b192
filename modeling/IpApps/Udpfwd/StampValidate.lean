import IpApps.Udpfwd.AgentOption
import IpApps.Udpfwd.CacheRuns
import IpApps.Udpfwd.OptionScan
import IpApps.Udpfwd.RelayRequest
import Mathlib.Data.UInt

/-!
# Stamping a request and checking the reply

A request without agent address is relayed with a new option 82; the server sends option
and agent address back. The relay then looks for the interface that owns the agent address
and checks the option against it. The option holds the configured gateway address whether
or not it is one of the interface, while the agent address and the check ask for an address
of the interface.
-/

namespace IpApps
namespace Udpfwd

open Memory Endian ExceptLoops

/-! ## An interface and its addresses -/

theorem sameIfName_iff (s t : CString) :
    sameIfName s t = true ↔ s.take ifNamesize = t.take ifNamesize := by
  rw [sameIfName, decide_eq_true_iff, Libc.strncmp_eq_zero_iff]

/-- An interface the host knows by index and name, with an Ethernet address, whose IPv4
addresses no other interface has. -/
structure NetInterface (host : Host) where
  index : UInt32
  name : CString
  ifaddr : List IfAddrs
  ifNi : List (UInt32 × CString)
  getifaddrs : host.getifaddrs = some ifaddr
  ifNameindex : host.ifNameindex = some ifNi
  ifIndextoname : host.ifIndextoname index = some name
  index_ne : index ≠ Host.noIfIndex
  listed : ∃ i ∈ ifNi, sameIfName i.2 name = true
  index_eq : ∀ i ∈ ifNi, sameIfName i.2 name = true → i.1 = index
  mac : (host.getMacfromIfname name).length = macHeaderLength
  owns : ∀ ifa ∈ ifaddr, ∀ ip, ifa.ifaAddr = .inet ip →
    host.ipExistsOnInterface name ip = true → sameIfName name ifa.ifaName = true

namespace NetInterface

variable {host : Host} (intf : NetInterface host)

theorem ipExistsOnInterface_iff (ip : IpAddress) :
    host.ipExistsOnInterface intf.name ip = true ↔
      ∃ ifa ∈ intf.ifaddr, ifa.ifaAddr = .inet ip ∧ sameIfName intf.name ifa.ifaName = true := by
  unfold Host.ipExistsOnInterface
  rw [intf.getifaddrs]
  simp only [List.contains_iff_mem, Host.ipsOnInterface, List.mem_filterMap]
  apply exists_congr
  intro ifa
  apply and_congr_right
  intro _
  unfold Host.ipOnInterface
  cases ifa.ifaAddr with
  | inet addr => by_cases hname : sameIfName intf.name ifa.ifaName = true <;> simp [hname]
  | packet mac => simp
  | other => simp

/-- An element of the address list that holds an address of the interface leads to its
index. -/
theorem ifIndexOf_eq {ip : IpAddress} (hip : host.ipExistsOnInterface intf.name ip = true)
    {ifa : IfAddrs} (hifa : ifa ∈ intf.ifaddr) :
    Host.ifIndexOf intf.ifNi ip ifa = if ifa.ifaAddr = .inet ip then some intf.index else none := by
  unfold Host.ifIndexOf
  cases haddr : ifa.ifaAddr with
  | packet mac => simp
  | other => simp
  | inet addr =>
    by_cases heq : addr = ip
    · have hname := (sameIfName_iff _ _).mp (intf.owns ifa hifa ip (by rw [haddr, heq]) hip)
      have hsame : ∀ i : UInt32 × CString,
          sameIfName i.2 ifa.ifaName = sameIfName i.2 intf.name := by
        intro i
        rw [Bool.eq_iff_iff, sameIfName_iff, sameIfName_iff, hname]
      simp only [heq, if_true, hsame]
      cases hfind : intf.ifNi.find? fun i => sameIfName i.2 intf.name with
      | none =>
        obtain ⟨i, hi, hi'⟩ := intf.listed
        exact absurd hi' (List.find?_eq_none.mp hfind i hi)
      | some i =>
        have hi : sameIfName i.2 intf.name = true := by
          have hsome := List.find?_some hfind
          exact hsome
        rw [Option.map_some, intf.index_eq i (List.mem_of_find?_eq_some hfind) hi]
    · simp [heq]

/-- The interface is found by each of its addresses. -/
theorem getIfIndexfromIpAddress_eq {ip : IpAddress}
    (hip : host.ipExistsOnInterface intf.name ip = true) :
    host.getIfIndexfromIpAddress ip = intf.index := by
  have hfound : intf.ifaddr.findSome? (Host.ifIndexOf intf.ifNi ip) = some intf.index := by
    cases hsome : intf.ifaddr.findSome? (Host.ifIndexOf intf.ifNi ip) with
    | none =>
      obtain ⟨ifa, hifa, haddr, -⟩ := (intf.ipExistsOnInterface_iff ip).mp hip
      have hnone := List.findSome?_eq_none_iff.mp hsome ifa hifa
      rw [intf.ifIndexOf_eq hip hifa, if_pos haddr] at hnone
      cases hnone
    | some index =>
      obtain ⟨ifa, hifa, hindex⟩ := List.exists_of_findSome?_eq_some hsome
      rw [intf.ifIndexOf_eq hip hifa] at hindex
      split at hindex
      · exact hindex.symm
      · cases hindex
  unfold Host.getIfIndexfromIpAddress
  rw [intf.ifNameindex, intf.getifaddrs]
  simp only [hfound, Option.getD_some]

end NetInterface

/-! ## A request that gets an option 82 -/

/-- Where option 82 processing adds its option to a request, if it adds one: it is enabled,
the message has the cookie, the option loop does not return, a message type was seen and
there is room. -/
def addedOption82 (cfg : FeatureConfig) (host : Host) (ifName : CString) (pkt : Packet)
    (pktInfo : Option82Options) : Option ℤ :=
  if cfg.enabled .dhcpRelayOption82 ∧ slice pkt (dhcp pkt + optionsOff) magicLen = dhcpCookie then
    match scanOptions cfg host ifName pkt pktInfo with
    | .ret _ _ => none
    | .next s =>
      if s.isDhcp ∧ s.pkt (dhcp pkt + opOff) = bootrequest ∧ s.hasRoom (dhcp pkt) cfg.rId then
        some s.optionPtr
      else none
  else none

/-- The new option. -/
def newOptionBytes (host : Host) (ifIndex : UInt32) (ifName : CString) (bootpGw : IpAddress)
    (rId : RemoteId) (pktInfo : Option82Options) : List UInt8 :=
  dhcpAgentOptions :: UInt8.ofNat (remoteIdLength rId + 8)
    :: agentOptionBody ifIndex (remoteIdBytes host ifName bootpGw rId pktInfo)

/-- With an option added, the message in front of it is as before, and the new option is at
its place. -/
theorem process_of_added {cfg : FeatureConfig} {host : Host} {ifName : CString} {pkt : Packet}
    {pktInfo : Option82Options} {pos : ℤ} (ifIndex : UInt32) (bootpGw : IpAddress)
    (hadded : addedOption82 cfg host ifName pkt pktInfo = some pos)
    (hmac : cfg.rId = .mac → (host.getMacfromIfname ifName).length = macHeaderLength) :
    dhcp pkt + 239 ≤ pos ∧
      ∃ pktW, (∀ a < dhcp pkt + 239, pktW a = pkt a) ∧
        slice pktW pos (remoteIdLength cfg.rId + 10)
          = newOptionBytes host ifIndex ifName bootpGw cfg.rId pktInfo ∧
        processDhcpRelayOption82Message cfg host pkt pktInfo ifIndex ifName bootpGw
          = ⟨.valid, updateLengths (dhcp pkt) pktW (pos + remoteIdLength cfg.rId + 11),
              pktInfo⟩ := by
  unfold addedOption82 at hadded
  split at hadded
  · rename_i hon
    split at hadded
    · cases hadded
    · rename_i s hscan
      split at hadded
      · rename_i hadd
        obtain ⟨hdhcp, hop, hroom⟩ := hadd
        have hbase : dhcp pkt + opOff < dhcp pkt + optionsOff + magicLen := by
          unfold opOff optionsOff
          omega
        -- the scan leaves everything in front of the options
        have hstart : Behind (dhcp pkt + optionsOff + magicLen) pkt (Scan.start pkt pktInfo) :=
          ⟨fun _ _ => rfl, Int.le_refl _, fun e he => nomatch he⟩
        obtain ⟨hbehind, hinfo⟩ := hstart.loop hbase hscan
        have hreq : pkt (dhcp pkt + opOff) = bootrequest := by
          rw [← hbehind.front _ hbase]
          exact hop
        have hinfo' : s.pktInfo = pktInfo := hinfo hreq
        have happend : dhcp pkt + 240 ≤ s.appendPtr := hbehind.appendPtr
        have hpos : dhcp pkt + 239 ≤ s.optionPtr := by
          unfold Scan.optionPtr
          split <;> omega
        rw [← Option.some.inj hadded]
        have hreply : s.pkt (dhcp pkt + opOff) ≠ bootreply := by rw [hop]; decide
        have hlen : (newOptionBytes host ifIndex ifName bootpGw cfg.rId pktInfo).length
            = remoteIdLength cfg.rId + 10 := by
          simp only [newOptionBytes, List.length_cons, length_agentOptionBody,
            length_remoteIdBytes hmac]
        -- the packet with the new option and the end tag behind it
        refine ⟨hpos, store s.pkt s.optionPtr
          (newOptionBytes host ifIndex ifName bootpGw cfg.rId pktInfo ++ [endTag]), ?_, ?_, ?_⟩
        · intro a ha
          rw [store_of_lt _ (by omega)]
          exact hbehind.front a (by unfold optionsOff magicLen; omega)
        · have hpart := slice_store_part s.pkt s.optionPtr []
            (newOptionBytes host ifIndex ifName bootpGw cfg.rId pktInfo) [endTag]
          rw [hlen, List.length_nil, Nat.cast_zero, add_zero, List.nil_append] at hpart
          exact hpart
        · unfold processDhcpRelayOption82Message
          rw [if_neg (by simp [hon.1]), if_neg (not_not.mpr hon.2), hscan]
          simp only [finishOption82, hdhcp, not_true_eq_false, if_false, if_neg hreply, if_pos hop,
            addAgentOption, hroom, if_true, hinfo', writeAgentOption_eq _ _ _ hmac]
          rfl
      · cases hadded
  · cases hadded

/-- A request without agent address that comes in on an interface with a node, and the
place where it gets its option 82. -/
structure StampedRequest where
  cfg : FeatureConfig
  host : Host
  intf : NetInterface host
  r : Relay
  input : r.pktInfo.ipiIfindex = intf.index
  sent : r.sent = []
  unset : giaddr r.pkt = 0
  p : NodePtr
  node : UdpfwdInterfaceNode
  table : r.state.shashFind intf.name = some p
  nodes : r.state.nodes p = some node
  pos : ℤ
  added : addedOption82 cfg host intf.name (Relay.countHop cfg (Relay.correctPort r.pkt))
    ⟨0, host.getLowestIpOnInterface intf.name⟩ = some pos
  result : Relay
  relayed : Relay.relayToDhcpServer cfg host r = .ok result

namespace StampedRequest

variable (x : StampedRequest)

/-- The packet option 82 processing gets. -/
def found : Packet := Relay.countHop x.cfg (Relay.correctPort x.r.pkt)

def interfaceIp : IpAddress := x.host.getLowestIpOnInterface x.intf.name

/-- The agent address a request gets. -/
def stamp : IpAddress :=
  if x.node.bootpGw ≠ 0 ∧ x.host.ipExistsOnInterface x.intf.name x.node.bootpGw then
    x.node.bootpGw
  else x.interfaceIp

/-- The new option. -/
def option : List UInt8 :=
  newOptionBytes x.host x.intf.index x.intf.name x.node.bootpGw x.cfg.rId ⟨0, x.interfaceIp⟩

theorem found_kept {a : ℤ} (ha : Kept (dhcp x.r.pkt) a) : x.found a = x.r.pkt a := by
  have hport : dhcp (Relay.correctPort x.r.pkt) = dhcp x.r.pkt := dhcp_congr correctPort_first
  unfold found
  rw [countHop_kept _ (by rw [hport]; exact ha), correctPort_kept ha]

theorem dhcp_found : dhcp x.found = dhcp x.r.pkt := dhcp_congr (x.found_kept (Or.inl rfl))

/-- A datagram is sent only for an interface with an address, and it carries the stamped
packet. -/
theorem sent_carries {d : Datagram} (hd : d ∈ x.result.sent) {outcome : Option82Outcome}
    (houtcome : processDhcpRelayOption82Message x.cfg x.host x.found ⟨0, x.interfaceIp⟩
      x.intf.index x.intf.name x.node.bootpGw = outcome)
    (hvalid : outcome.result = .valid) (hfirst : outcome.pkt 0 = x.r.pkt 0) :
    x.interfaceIp ≠ 0 ∧ Carries (dhcp x.r.pkt)
      (Relay.stampGiaddr x.host x.intf.name x.node.bootpGw x.interfaceIp (dhcp x.r.pkt)
        outcome.pkt) x.result := by
  -- a branch that sends nothing contradicts the datagram
  have hnone : ∀ r' : Relay, Except.ok (ε := Fault) r' = .ok x.result → r'.sent = [] → False := by
    intro r' heq hempty
    rw [← Except.ok.inj heq, hempty] at hd
    exact List.not_mem_nil hd
  have hrun := x.relayed
  unfold Relay.relayToDhcpServer at hrun
  simp only [x.input, if_neg x.intf.index_ne, x.intf.ifIndextoname, x.table] at hrun
  have hport : dhcp (Relay.correctPort x.r.pkt) = dhcp x.r.pkt := dhcp_congr correctPort_first
  split at hrun
  · exact (hnone _ hrun x.sent).elim
  rename_i hip
  split at hrun
  · exact (hnone _ hrun x.sent).elim
  refine ⟨hip, ?_⟩
  unfold Relay.relayRequest at hrun
  rw [State.node_eq_ok _ x.nodes, ok_bind] at hrun
  simp only at hrun
  rw [show processDhcpRelayOption82Message x.cfg x.host
      (Relay.countHop x.cfg (Relay.correctPort x.r.pkt))
      ⟨0, x.host.getLowestIpOnInterface x.intf.name⟩ x.intf.index x.intf.name x.node.bootpGw
      = outcome from houtcome, hport] at hrun
  simp only [hvalid] at hrun
  obtain ⟨state, hstate, hrun⟩ := bind_eq_ok hrun
  have hout : dhcp outcome.pkt = dhcp x.r.pkt := dhcp_congr hfirst
  -- the agent address is not in the octet that says where the message starts
  have hstamped : dhcp (Relay.stampGiaddr x.host x.intf.name x.node.bootpGw x.interfaceIp
      (dhcp x.r.pkt) outcome.pkt) = dhcp x.r.pkt := by
    rw [← hout]
    apply dhcp_congr
    unfold Relay.stampGiaddr
    split
    · apply store_of_lt
      have hpos := udph_nonneg outcome.pkt
      unfold dhcp udphdrLength giaddrOff
      omega
    · rfl
  have hnode := State.nodes_count x.nodes hstate
  exact Carries.relayToServers (r := { x.r with pkt := outcome.pkt, state := state }) hnode rfl
    x.sent hstamped hrun

/-- The agent address is one of the interface. -/
theorem ipExistsOnInterface_stamp (hip : x.interfaceIp ≠ 0) :
    x.host.ipExistsOnInterface x.intf.name x.stamp = true := by
  unfold stamp
  split
  · rename_i hgw
    exact hgw.2
  · exact ipExistsOnInterface_getLowestIpOnInterface hip

end StampedRequest

/-! ## The reply -/

/-- The server got the datagram with the option at `pos`, and its reply has that option at
`q` and the agent address of the request. -/
structure Echo (d : Datagram) (pos : ℤ) (reply : Packet) (q : ℤ) : Prop where
  inside : pos + ((d.packet (pos + 1)).toNat + dhcpOptionHeaderLength : ℕ) ≤ d.bytes.length
  option : slice reply q ((d.packet (pos + 1)).toNat + dhcpOptionHeaderLength)
    = slice d.packet pos ((d.packet (pos + 1)).toNat + dhcpOptionHeaderLength)
  giaddr : giaddr reply = giaddr d.packet

/-- The option at `q` passes the check for the interface that owns the agent address, and
the check recovers the circuit id. -/
def AcceptsEcho (host : Host) (rId : RemoteId) (reply : Packet) (q : ℤ)
    (pktInfo : Option82Options) (ifIndex : UInt32) : Prop :=
  ∃ owner, host.ifIndextoname (host.getIfIndexfromIpAddress (giaddr reply)) = some owner ∧
    ∃ pktInfo', dhcpRelayValidateAgentOption host reply (q + 2) (reply (q + 1)).toNat owner
      pktInfo rId = (.ok, pktInfo') ∧ pktInfo'.circuitId = ifIndex

namespace StampedRequest

variable (x : StampedRequest)

/-- The packet of a datagram that reaches the new option: it holds the option and the stamped
agent address. -/
theorem sent_stamped {d : Datagram} (hd : d ∈ x.result.sent)
    (hinside : x.pos + 2 ≤ d.bytes.length) :
    x.interfaceIp ≠ 0 ∧ dhcp x.r.pkt + 239 ≤ x.pos ∧ ∃ pk, d.bytes = slice pk 0 d.bytes.length ∧
      dhcp pk = dhcp x.r.pkt ∧ ipAt pk (dhcp x.r.pkt + giaddrOff) = x.stamp ∧
      slice pk x.pos (remoteIdLength x.cfg.rId + 10) = x.option := by
  obtain ⟨hpos, pktW, hfront, hopt, hproc⟩ :=
    process_of_added x.intf.index x.node.bootpGw x.added fun _ => x.intf.mac
  have hfound : dhcp (Relay.countHop x.cfg (Relay.correctPort x.r.pkt)) = dhcp x.r.pkt :=
    x.dhcp_found
  rw [hfound] at hpos hfront hproc
  have hudph := udph_nonneg x.r.pkt
  have hdhcp : dhcp x.r.pkt = udph x.r.pkt + 8 := rfl
  have hpktW : ∀ a, Kept (dhcp x.r.pkt) a → a < dhcp x.r.pkt + 239 → pktW a = x.r.pkt a :=
    fun a ha hlt => (hfront a hlt).trans (x.found_kept ha)
  have hdhcpW : dhcp pktW = dhcp x.r.pkt := dhcp_congr (hpktW 0 (Or.inl rfl) (by omega))
  have hfirst : updateLengths (dhcp x.r.pkt) pktW (x.pos + remoteIdLength x.cfg.rId + 11) 0
      = x.r.pkt 0 := by
    rw [updateLengths_first pktW (by omega)]
    exact hpktW 0 (Or.inl rfl) (by omega)
  obtain ⟨hip, hcarries⟩ := x.sent_carries hd hproc rfl hfirst
  obtain ⟨pk, size, hbytes, hsize, hkept⟩ := hcarries.sent d hd
  have hlen : d.bytes.length = size := by rw [hbytes, length_slice]
  -- the rewritten message behind the headers
  have hrl : remoteIdLength x.cfg.rId ≤ 6 := by cases x.cfg.rId <;> decide
  obtain ⟨n, hn⟩ : ∃ n : ℕ, x.pos + remoteIdLength x.cfg.rId + 11 = dhcp pktW + n :=
    ⟨(x.pos + remoteIdLength x.cfg.rId + 11 - dhcp x.r.pkt).toNat, by rw [hdhcpW]; omega⟩
  have hlow : minbootplen ≤ n := by
    rw [hdhcpW] at hn
    unfold minbootplen
    omega
  have hupdated : ∀ a, dhcp x.r.pkt + giaddrOff ≤ a → updateLengths (dhcp x.r.pkt) pktW
      (x.pos + remoteIdLength x.cfg.rId + 11) a = pktW a := by
    intro a ha
    unfold giaddrOff at ha
    rw [← hdhcpW]
    rw [hdhcpW] at hn
    apply updateLengths_behind (by rw [hdhcpW]; exact hn) hlow (by omega)
    · rw [hdhcpW]
      omega
    · unfold ipSumOff
      omega
  generalize updateLengths (dhcp x.r.pkt) pktW (x.pos + remoteIdLength x.cfg.rId + 11) = out at *
  -- the agent address was not set
  have hunset : ipAt out (dhcp x.r.pkt + giaddrOff) = 0 := by
    rw [← x.unset]
    unfold giaddr ipAt
    congr 2
    apply slice_congr
    intro i hi
    rw [hupdated _ (by omega)]
    exact hpktW _ (Or.inr (by omega)) (by unfold giaddrOff; omega)
  have hstamped : Relay.stampGiaddr x.host x.intf.name x.node.bootpGw x.interfaceIp
      (dhcp x.r.pkt) out = store out (dhcp x.r.pkt + giaddrOff) (ipBytes x.stamp) := by
    unfold Relay.stampGiaddr
    rw [if_pos hunset]
    rfl
  rw [hstamped] at hkept
  refine ⟨hip, hpos, pk, by rw [hlen]; exact hbytes, ?_, ?_, ?_⟩
  · apply dhcp_congr
    rw [hkept 0 (Or.inl rfl), store_of_lt _ (by unfold giaddrOff; omega), hfirst]
  · rw [← ipAt_store_ipBytes out (dhcp x.r.pkt + giaddrOff) x.stamp, ipAt, ipAt]
    congr 2
    apply slice_congr
    intro i _
    exact hkept _ (Or.inr (by omega))
  · refine Eq.trans ?_ hopt
    apply slice_congr
    intro i hi
    have hge : dhcp x.r.pkt + giaddrOff + 4 ≤ x.pos + i := by
      unfold giaddrOff
      omega
    rw [hkept _ (Or.inr (by omega)), store_of_ge _ (by rw [length_ipBytes]; omega),
      hupdated _ (by omega)]

/-- What an echo of a sent datagram holds: the new option and the stamped agent address. -/
theorem echo_holds {d : Datagram} (hd : d ∈ x.result.sent) {reply : Packet} {q : ℤ}
    (hecho : Echo d x.pos reply q) :
    x.interfaceIp ≠ 0 ∧ giaddr reply = x.stamp ∧
      slice reply q (remoteIdLength x.cfg.rId + 10) = x.option := by
  have hinside := hecho.inside
  unfold dhcpOptionHeaderLength at hinside
  obtain ⟨hip, hpos, pk, hbytes, hdhcp, hgiaddr, hoption⟩ := x.sent_stamped hd (by omega)
  have hudph := udph_nonneg x.r.pkt
  have hwhere : dhcp x.r.pkt = udph x.r.pkt + 8 := rfl
  have hrl : remoteIdLength x.cfg.rId ≤ 6 := by cases x.cfg.rId <;> decide
  have hoctet : (d.packet (x.pos + 1)).toNat = remoteIdLength x.cfg.rId + 8 := by
    have hsent := slice_packet (n := 2) hbytes (a := x.pos) (by omega) (by omega)
    have hcell := cell_eq_of_slice_eq _ _ hsent (i := 1) (by decide)
    rw [show x.pos + ((1 : ℕ) : ℤ) = x.pos + 1 from rfl] at hcell
    rw [slice_succ, slice_succ] at hoption
    rw [hcell, (List.cons.inj (List.cons.inj hoption).2).1, UInt8.toNat_ofNat']
    omega
  refine ⟨hip, ?_, ?_⟩
  · have hdpkt : dhcp d.packet = dhcp x.r.pkt := by
      rw [← hdhcp]
      apply dhcp_congr
      have hsent := slice_packet (n := 1) hbytes (a := 0) (by omega) (by omega)
      have hcell := cell_eq_of_slice_eq _ _ hsent (i := 0) (by decide)
      rw [show (0 : ℤ) + ((0 : ℕ) : ℤ) = 0 from rfl] at hcell
      exact hcell
    rw [hecho.giaddr, giaddr, hdpkt, ipAt,
      slice_packet hbytes (by unfold giaddrOff; omega) (by unfold giaddrOff; omega), ← ipAt]
    exact hgiaddr
  · have hslice := hecho.option
    rw [hoctet] at hslice hinside
    rw [← hoption, ← slice_packet hbytes (by omega) (by omega)]
    exact hslice

end StampedRequest

/-- The relay accepts the echo of its own option, with the circuit id of the interface,
exactly when the remote id is the MAC address, or no gateway is configured, or the gateway
is an address of the interface. -/
theorem acceptsEcho_iff (x : StampedRequest) {d : Datagram} (hd : d ∈ x.result.sent)
    {reply : Packet} {q : ℤ} (hecho : Echo d x.pos reply q) (pktInfo : Option82Options) :
    AcceptsEcho x.host x.cfg.rId reply q pktInfo x.intf.index ↔
      (x.cfg.rId = .mac ∨ x.node.bootpGw = 0 ∨
        x.host.ipExistsOnInterface x.intf.name x.node.bootpGw = true) := by
  obtain ⟨hip, hgi, hoption⟩ := x.echo_holds hd hecho
  have howner : x.host.ifIndextoname (x.host.getIfIndexfromIpAddress (giaddr reply))
      = some x.intf.name := by
    rw [hgi, x.intf.getIfIndexfromIpAddress_eq (x.ipExistsOnInterface_stamp hip),
      x.intf.ifIndextoname]
  have hlen : (remoteIdBytes x.host x.intf.name x.node.bootpGw x.cfg.rId
      ⟨0, x.interfaceIp⟩).length = remoteIdLength x.cfg.rId :=
    length_remoteIdBytes fun _ => x.intf.mac
  rw [slice_succ, slice_succ] at hoption
  have hoctet := (List.cons.inj (List.cons.inj hoption).2).1
  have hbody := (List.cons.inj (List.cons.inj hoption).2).2
  rw [add_assoc, show (1 : ℤ) + 1 = 2 from rfl] at hbody
  have hsize : (reply (q + 1)).toNat = remoteIdLength x.cfg.rId + 8 := by
    have hrl : remoteIdLength x.cfg.rId ≤ 6 := by cases x.cfg.rId <;> decide
    rw [hoctet, UInt8.toNat_ofNat']
    omega
  have hvalidate := @validate_agentOptionBody x.host _ _ x.intf.index _
    x.intf.name pktInfo x.cfg.rId hlen (fun hmac => by rw [hmac]; rfl)
    (by rw [hlen]; exact hbody)
  rw [hlen, ← hsize] at hvalidate
  have haccepts : AcceptsEcho x.host x.cfg.rId reply q pktInfo x.intf.index ↔
      (x.cfg.rId = .ip → x.host.ipExistsOnInterface x.intf.name (UInt32.ofNat
        (leVal (remoteIdBytes x.host x.intf.name x.node.bootpGw x.cfg.rId
          ⟨0, x.interfaceIp⟩))) = true) := by
    rw [← hvalidate]
    unfold AcceptsEcho
    rw [howner]
    simp only [Option.some.injEq, exists_eq_left']
  rw [haccepts]
  cases hrId : x.cfg.rId with
  | mac => simp
  | ip =>
    -- the option holds the gateway if there is one, and the lowest address otherwise
    simp only [remoteIdBytes, ofNat_leVal_ipBytes, true_imp_iff, reduceCtorEq, false_or]
    by_cases hgw : x.node.bootpGw = 0
    · simp only [hgw, ne_eq, not_true_eq_false, if_false, true_or, iff_true]
      exact ipExistsOnInterface_getLowestIpOnInterface hip
    · simp only [hgw, ne_eq, not_false_eq_true, if_true, false_or]

/-! ### A gateway the interface does not have -/

/-- A host with the interface `1`: index 3, an Ethernet address and 10.0.0.1. -/
def oneInterfaceHost : Host where
  getifaddrs := some
    [⟨['1'], .packet [0x00, 0x1b, 0x2c, 0x3d, 0x4e, 0x5f]⟩, ⟨['1'], .inet 0x0100000a⟩]
  ifNameindex := some [(3, ['1'])]
  ifIndextoname := fun i => if i = 3 then some ['1'] else none
  sendmsg := fun _ => true
  unsetMac := Vector.replicate 6 0

def oneInterface : NetInterface oneInterfaceHost where
  index := 3
  name := ['1']
  ifaddr := [⟨['1'], .packet [0x00, 0x1b, 0x2c, 0x3d, 0x4e, 0x5f]⟩, ⟨['1'], .inet 0x0100000a⟩]
  ifNi := [(3, ['1'])]
  getifaddrs := rfl
  ifNameindex := rfl
  ifIndextoname := rfl
  index_ne := by decide
  listed := by decide
  index_eq := by decide
  mac := rfl
  owns := by
    have hnames : ∀ ifa ∈ [(⟨['1'], .packet [0x00, 0x1b, 0x2c, 0x3d, 0x4e, 0x5f]⟩ : IfAddrs),
        ⟨['1'], .inet 0x0100000a⟩], sameIfName ['1'] ifa.ifaName = true := by decide
    exact fun ifa hifa _ _ _ => hnames ifa hifa

/-- Interface `1` has the helper 10.0.0.2 and the gateway 10.9.9.9. -/
def gatewayState : State :=
  (runCalls (State.empty fun a port => a ^^^ port)
    [.create ['1'], .store 0 0x0200000a 67, .setBootpGw 0 0x0909090a]).getD (State.empty 0)

def gatewayRelay : Relay where
  pkt := requestPacket [0, 0, 0, 0] [53, 1, 1, 255]
  pktInfo := ⟨3, 0x0100000a, 0xffffffff⟩
  state := gatewayState

/-- A DHCPDISCOVER that comes in on interface `1`, with option 82 and the address as remote
id. -/
def gatewayRequest : StampedRequest where
  cfg := ⟨0x000a, .replace, .ip⟩
  host := oneInterfaceHost
  intf := oneInterface
  r := gatewayRelay
  input := rfl
  sent := rfl
  unset := by decide +kernel
  p := 0
  node := ⟨['1'], 1, some (some 0 :: List.replicate 15 none), 0x0909090a, {}⟩
  table := rfl
  nodes := rfl
  pos := 271
  added := by decide +kernel
  result := (Relay.relayToDhcpServer ⟨0x000a, .replace, .ip⟩ oneInterfaceHost
    gatewayRelay).toOption.getD gatewayRelay
  relayed := rfl

/-- The datagram the helper gets. -/
def gatewayDatagram : Datagram := gatewayRequest.result.sent.head (by decide +kernel)

theorem gatewayDatagram_mem : gatewayDatagram ∈ gatewayRequest.result.sent := List.head_mem _

/-- The datagram itself serves as the reply. -/
theorem gatewayDatagram_echo :
    Echo gatewayDatagram gatewayRequest.pos gatewayDatagram.packet gatewayRequest.pos where
  inside := by decide +kernel
  option := rfl
  giaddr := rfl

theorem acceptsEcho_iff_gateway : ¬ AcceptsEcho gatewayRequest.host gatewayRequest.cfg.rId
    gatewayDatagram.packet gatewayRequest.pos ⟨0, 0⟩ gatewayRequest.intf.index :=
  fun haccepts => absurd ((acceptsEcho_iff gatewayRequest gatewayDatagram_mem
    gatewayDatagram_echo ⟨0, 0⟩).mp haccepts) (by decide)

/-- The option holds 10.9.9.9, which the check does not find on the interface. -/
theorem gateway_echo_mismatch :
    ¬ ∀ (x : StampedRequest) (d : Datagram) (reply : Packet) (q : ℤ) (pktInfo : Option82Options),
      d ∈ x.result.sent → Echo d x.pos reply q →
        AcceptsEcho x.host x.cfg.rId reply q pktInfo x.intf.index := by
  intro haccepts
  obtain ⟨owner, howner, pktInfo', hvalidate, -⟩ := haccepts gatewayRequest gatewayDatagram
    gatewayDatagram.packet gatewayRequest.pos ⟨0, 0⟩ gatewayDatagram_mem gatewayDatagram_echo
  have hname : gatewayRequest.host.ifIndextoname (gatewayRequest.host.getIfIndexfromIpAddress
      (giaddr gatewayDatagram.packet)) = some ['1'] := by decide +kernel
  rw [hname] at howner
  rw [← Option.some.inj howner] at hvalidate
  have hstatus : (dhcpRelayValidateAgentOption gatewayRequest.host gatewayDatagram.packet
      (gatewayRequest.pos + 2) (gatewayDatagram.packet (gatewayRequest.pos + 1)).toNat ['1']
      ⟨0, 0⟩ gatewayRequest.cfg.rId).1 = .mismatch := by decide +kernel
  rw [hvalidate] at hstatus
  cases hstatus

end Udpfwd
end IpApps
