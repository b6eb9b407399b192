import IpApps.Udpfwd.DhcpOptions
import Mathlib.Tactic.Ring

/-!
# Writing and reading the relay agent option

The bytes `process_dhcp_relay_option82_message` appends to a request and the length fields
it updates, and what `dhcp_relay_validate_agent_option` finds in such bytes.
-/

namespace IpApps
namespace Udpfwd

open Memory Endian

/-! ## Writing the option -/

/-- The remote id the configuration asks for. -/
def remoteIdBytes (host : Host) (ifName : CString) (bootpGw : IpAddress) (rId : RemoteId)
    (pktInfo : Option82Options) : List UInt8 :=
  match rId with
  | .mac => host.getMacfromIfname ifName
  | .ip => ipBytes (if bootpGw ≠ 0 then bootpGw else pktInfo.ipAddr)

/-- The length of a remote id. -/
def remoteIdLength : RemoteId → ℕ
  | .mac => macHeaderLength
  | .ip => 4

theorem remoteIdLength_le (rId : RemoteId) : remoteIdLength rId ≤ 6 := by
  cases rId <;> decide

/-- The body of a relay agent option: circuit id and remote id. -/
def agentOptionBody (ifIndex : UInt32) (remoteId : List UInt8) : List UInt8 :=
  [dhcpRaiCircuitId, 4] ++ beBytes 4 ifIndex.toNat
    ++ [dhcpRaiRemoteId, UInt8.ofNat remoteId.length] ++ remoteId

theorem length_agentOptionBody (ifIndex : UInt32) (remoteId : List UInt8) :
    (agentOptionBody ifIndex remoteId).length = remoteId.length + 8 := by
  simp only [agentOptionBody, List.length_append, List.length_cons, List.length_nil,
    length_beBytes]
  omega

section write

variable {host : Host} {ifName : CString} {bootpGw : IpAddress} {rId : RemoteId}
variable {pktInfo : Option82Options}

theorem length_remoteIdBytes
    (hmac : rId = .mac → (host.getMacfromIfname ifName).length = macHeaderLength) :
    (remoteIdBytes host ifName bootpGw rId pktInfo).length = remoteIdLength rId := by
  cases rId with
  | mac => exact hmac rfl
  | ip => rfl

/-- Three stores one behind the other. -/
theorem store_three (pkt : Packet) (sp : ℤ) {xs ys : List UInt8} {j k : ℕ} (hx : xs.length = j)
    (hy : ys.length = k) (zs : List UInt8) :
    store (store (store pkt sp xs) (sp + j) ys) (sp + j + k) zs
      = store pkt sp (xs ++ ys ++ zs) := by
  rw [← hx, store_store_append]
  have hlast := store_store_append pkt sp (xs ++ ys) zs
  rw [List.length_append, hy, Nat.cast_add, ← add_assoc] at hlast
  exact hlast

/-- The writes of the new option: its head, the remote id and END. -/
theorem writeAgentOption_stores (ifIndex : UInt32) (pkt : Packet) (sp : ℤ) :
    writeAgentOption host ifIndex ifName bootpGw rId pktInfo pkt sp
      = (store (store (store pkt sp (agentOptionHead ifIndex rId (remoteIdLength rId))) (sp + 10)
          (remoteIdBytes host ifName bootpGw rId pktInfo)) (sp + 10 + remoteIdLength rId) [endTag],
        sp + 10 + remoteIdLength rId + 1) := by
  cases rId <;> rfl

@[simp] theorem length_agentOptionHead (ifIndex : UInt32) (n : ℕ) :
    (agentOptionHead ifIndex rId n).length = 10 := by
  simp [agentOptionHead]

/-- The head and a remote id of the right length are a relay agent option. -/
theorem agentOptionHead_append (ifIndex : UInt32) {remoteId : List UInt8}
    (h : remoteId.length = remoteIdLength rId) :
    agentOptionHead ifIndex rId (remoteIdLength rId) ++ remoteId
      = dhcpAgentOptions :: UInt8.ofNat (remoteIdLength rId + 8)
          :: agentOptionBody ifIndex remoteId := by
  rw [agentOptionHead, agentOptionBody, h]
  cases rId <;> rfl

/-- The new option and END are written in one piece. -/
theorem writeAgentOption_eq (ifIndex : UInt32) (pkt : Packet) (sp : ℤ)
    (hmac : rId = .mac → (host.getMacfromIfname ifName).length = macHeaderLength) :
    writeAgentOption host ifIndex ifName bootpGw rId pktInfo pkt sp
      = (store pkt sp (dhcpAgentOptions :: UInt8.ofNat (remoteIdLength rId + 8)
          :: agentOptionBody ifIndex (remoteIdBytes host ifName bootpGw rId pktInfo)
          ++ [endTag]), sp + remoteIdLength rId + 11) := by
  have hlen := @length_remoteIdBytes host ifName bootpGw rId pktInfo hmac
  rw [writeAgentOption_stores, ← agentOptionHead_append ifIndex hlen]
  refine Prod.ext ?_ ?_
  · show store (store (store pkt sp _) (sp + (10 : ℕ)) _) (sp + (10 : ℕ) + remoteIdLength rId) _ = _
    rw [store_three pkt sp (length_agentOptionHead ifIndex _) hlen]
  · show sp + 10 + (remoteIdLength rId : ℤ) + 1 = _
    omega

/-- The remote id that stands in a new option at `sp`. Of a hardware address of another length
than six, the first six bytes are there, or what was there before. -/
def standingRemoteId (host : Host) (ifName : CString) (bootpGw : IpAddress) (rId : RemoteId)
    (pktInfo : Option82Options) (pkt : Packet) (sp : ℤ) : List UInt8 :=
  slice (store pkt (sp + 10) (remoteIdBytes host ifName bootpGw rId pktInfo)) (sp + 10)
    (remoteIdLength rId)

theorem length_standingRemoteId (pkt : Packet) (sp : ℤ) :
    (standingRemoteId host ifName bootpGw rId pktInfo pkt sp).length = remoteIdLength rId :=
  length_slice _ _ _

/-- The new option and END as they can be read afterwards. -/
theorem writeAgentOption_reads (ifIndex : UInt32) (pkt : Packet) (sp : ℤ) :
    slice (writeAgentOption host ifIndex ifName bootpGw rId pktInfo pkt sp).1 sp
        (remoteIdLength rId + 11)
      = dhcpAgentOptions :: UInt8.ofNat (remoteIdLength rId + 8)
          :: agentOptionBody ifIndex (standingRemoteId host ifName bootpGw rId pktInfo pkt sp)
          ++ [endTag] := by
  have hhead := @length_agentOptionHead rId ifIndex (remoteIdLength rId)
  rw [writeAgentOption_stores, ← agentOptionHead_append ifIndex (length_standingRemoteId pkt sp),
    show remoteIdLength rId + 11 = 10 + (remoteIdLength rId + 1) by omega, slice_add, slice_add,
    List.append_assoc]
  congr 1
  · -- the head lies in front of the other two writes
    rw [slice_store_outside _ (Or.inl (by omega)), slice_store_outside _ (Or.inl (by omega)),
      ← hhead, slice_store_self]
  congr 1
  · rw [slice_store_outside _ (Or.inl (by omega))]
    apply slice_congr
    intro i hi
    apply store_congr
    intro _
    exact store_of_ge pkt (by rw [hhead]; omega)
  · exact slice_store_self _ _ [endTag]

/-- In front of the new option nothing is written. -/
theorem writeAgentOption_front (ifIndex : UInt32) (pkt : Packet) {sp a : ℤ} (ha : a < sp) :
    (writeAgentOption host ifIndex ifName bootpGw rId pktInfo pkt sp).1 a = pkt a := by
  rw [writeAgentOption_stores]
  show store _ _ _ a = _
  rw [store_of_lt _ (by omega), store_of_lt _ (by omega), store_of_lt _ ha]

/-- How many bytes the writes of the new option reach: a hardware address may be longer than the
six bytes that count, and END is written behind those. -/
def optionReach (host : Host) (ifName : CString) (bootpGw : IpAddress) (rId : RemoteId)
    (pktInfo : Option82Options) : ℕ :=
  10 + max (remoteIdBytes host ifName bootpGw rId pktInfo).length (remoteIdLength rId + 1)

/-- Behind what they reach nothing is written. -/
theorem writeAgentOption_above (ifIndex : UInt32) (pkt : Packet) {sp a : ℤ}
    (ha : sp + optionReach host ifName bootpGw rId pktInfo ≤ a) :
    (writeAgentOption host ifIndex ifName bootpGw rId pktInfo pkt sp).1 a = pkt a := by
  unfold optionReach at ha
  rw [writeAgentOption_stores]
  show store _ _ _ a = _
  rw [store_of_ge, store_of_ge, store_of_ge]
  · rw [length_agentOptionHead]
    omega
  · omega
  · rw [List.length_singleton]
    omega

/-- The last byte they reach is written, whatever the packet holds. -/
theorem writeAgentOption_last (host : Host) (ifIndex : UInt32) (ifName : CString)
    (bootpGw : IpAddress) (rId : RemoteId) (pktInfo : Option82Options) :
    ∃ b, ∀ (pkt : Packet) (sp : ℤ),
      (writeAgentOption host ifIndex ifName bootpGw rId pktInfo pkt sp).1
        (sp + optionReach host ifName bootpGw rId pktInfo - 1) = b := by
  unfold optionReach
  generalize hid : remoteIdBytes host ifName bootpGw rId pktInfo = remoteId
  by_cases hlong : remoteId.length ≤ remoteIdLength rId + 1
  · refine ⟨endTag, fun pkt sp => ?_⟩
    rw [writeAgentOption_stores, max_eq_right hlong]
    have hcell := store_inside (store (store pkt sp
      (agentOptionHead ifIndex rId (remoteIdLength rId))) (sp + 10)
      (remoteIdBytes host ifName bootpGw rId pktInfo)) (a := sp + 10 + remoteIdLength rId)
      (i := 0) (show 0 < [endTag].length from Nat.one_pos)
    rw [show sp + 10 + remoteIdLength rId + ((0 : ℕ) : ℤ)
      = sp + ((10 + (remoteIdLength rId + 1) : ℕ) : ℤ) - 1 by push_cast; ring] at hcell
    exact Option.some.inj hcell
  · -- the address reaches over END
    have hlt : remoteId.length - 1 < remoteId.length := by omega
    refine ⟨remoteId[remoteId.length - 1], fun pkt sp => ?_⟩
    rw [writeAgentOption_stores, max_eq_left (by omega), hid]
    have hcell := store_inside (store pkt sp (agentOptionHead ifIndex rId (remoteIdLength rId)))
      (a := sp + 10) hlt
    have hat : sp + 10 + ((remoteId.length - 1 : ℕ) : ℤ)
        = sp + ((10 + remoteId.length : ℕ) : ℤ) - 1 := by omega
    rw [hat, List.getElem?_eq_getElem hlt] at hcell
    show store _ _ [endTag] _ = _
    rw [store_of_ge _ (by rw [List.length_singleton]; omega)]
    exact Option.some.inj hcell

end write

/-! ## The length fields -/

section lengths

variable {pkt : Packet} {sp : ℤ} {n : ℕ}

/-- The first byte of the packet is never written. -/
theorem updateLengths_first (pkt' : Packet) (hsp : 0 < sp) :
    updateLengths (dhcp pkt) pkt' sp 0 = pkt' 0 := by
  have hudph : 0 ≤ dhcp pkt - udphdrLength := by
    unfold dhcp udph
    omega
  unfold updateLengths
  rw [store_of_lt _ (by decide), store_of_lt _ (by decide),
    store_of_lt _ (by unfold uhSumOff; omega), store_of_lt _ (by unfold uhUlenOff; omega)]
  split
  · exact store_of_lt _ hsp _
  · rfl

/-- A message of more than the minimal length is not padded. -/
theorem updateLengths_eq (hsp : sp = dhcp pkt + n) (hlow : minbootplen ≤ n) (hhigh : n < 2 ^ 32) :
    updateLengths (dhcp pkt) pkt sp
      = store (store (store (store pkt (udph pkt + uhUlenOff) (htonsBytes (n + udphdrLength)))
          (udph pkt + uhSumOff) [0, 0]) ipLenOff
          (htonsBytes (n + udphdrLength + ipHl pkt * 4))) ipSumOff [0, 0] := by
  have hlen : ((sp - dhcp pkt) % 2 ^ 32).toNat = n := by omega
  have hudph : dhcp pkt - udphdrLength = udph pkt := by
    unfold dhcp
    omega
  -- the header length is read again after the UDP fields were written
  have hhl : ipHl (store (store pkt (udph pkt + uhUlenOff) (htonsBytes (n + udphdrLength)))
      (udph pkt + uhSumOff) [0, 0]) = ipHl pkt := by
    unfold ipHl
    rw [store_of_lt, store_of_lt]
    · unfold udph uhUlenOff
      omega
    · unfold udph uhSumOff
      omega
  unfold updateLengths
  simp only [hlen, if_neg (Nat.not_lt.mpr hlow), hudph, hhl]

/-- Nothing behind the IP and UDP headers changes. -/
theorem updateLengths_behind (hsp : sp = dhcp pkt + n) (hlow : minbootplen ≤ n)
    (hhigh : n < 2 ^ 32) {a : ℤ} (ha : dhcp pkt ≤ a) (hip : ipSumOff + 2 ≤ a) :
    updateLengths (dhcp pkt) pkt sp a = pkt a := by
  have heq := updateLengths_eq hsp hlow hhigh
  unfold dhcp udphdrLength at ha
  unfold ipSumOff at hip
  rw [heq, store_of_ge, store_of_ge, store_of_ge, store_of_ge]
  · simp only [uhUlenOff, length_htonsBytes]
    omega
  · simp only [uhSumOff, List.length_cons, List.length_nil]
    omega
  · simp only [ipLenOff, length_htonsBytes]
    omega
  · simp only [ipSumOff, List.length_cons, List.length_nil]
    omega

/-- The message stays where it is. -/
theorem dhcp_updateLengths (hsp : sp = dhcp pkt + n) (hlow : minbootplen ≤ n) :
    dhcp (updateLengths (dhcp pkt) pkt sp) = dhcp pkt := by
  apply dhcp_congr
  apply updateLengths_first
  unfold minbootplen at hlow
  unfold dhcp udph at hsp
  omega

/-- The UDP length covers the message up to the pointer. -/
theorem dhcpPktlen_updateLengths (hsp : sp = dhcp pkt + n) (hlow : minbootplen ≤ n)
    (hhigh : n + udphdrLength < 2 ^ 16) :
    dhcpPktlen (updateLengths (dhcp pkt) pkt sp) = n := by
  have hn : n < 2 ^ 32 := by omega
  have hudph' : udph (updateLengths (dhcp pkt) pkt sp) = udph pkt := by
    have hdhcp := dhcp_updateLengths hsp hlow
    unfold dhcp at hdhcp
    unfold dhcp
    omega
  have heq := updateLengths_eq hsp hlow hn
  have hulen : ntohs (updateLengths (dhcp pkt) pkt sp) (udph pkt + uhUlenOff)
      = n + udphdrLength := by
    -- no later store reaches the field, wherever the UDP header lies
    have hu : udph pkt = (ipHl pkt * 4 : ℕ) := rfl
    rw [heq, ntohs, slice_store_outside, slice_store_outside, slice_store_outside]
    · exact ntohs_store_htonsBytes pkt _ hhigh
    · simp only [uhUlenOff, uhSumOff]
      omega
    · simp only [uhUlenOff, ipLenOff, length_htonsBytes]
      omega
    · simp only [uhUlenOff, ipSumOff, List.length_cons, List.length_nil]
      omega
  rw [dhcpPktlen, hudph', hulen]
  omega

/-- The IP length covers the headers and the message. -/
theorem ipLen_updateLengths (hsp : sp = dhcp pkt + n) (hlow : minbootplen ≤ n)
    (hhigh : n + udphdrLength + ipHl pkt * 4 < 2 ^ 16) :
    ntohs (updateLengths (dhcp pkt) pkt sp) ipLenOff = n + udphdrLength + ipHl pkt * 4 := by
  rw [updateLengths_eq hsp hlow (by omega), ntohs, slice_store_outside _ (Or.inl (by decide))]
  exact ntohs_store_htonsBytes _ _ hhigh

/-- Behind the message and its padding nothing is written. -/
theorem updateLengths_above (hsp : sp = dhcp pkt + n) (hhigh : n < 2 ^ 32) (pkt' : Packet) {a : ℤ}
    (ha : dhcp pkt + minbootplen ≤ a) : updateLengths (dhcp pkt) pkt' sp a = pkt' a := by
  have hlen : ((sp - dhcp pkt) % 2 ^ 32).toNat = n := by omega
  have hudph : dhcp pkt - udphdrLength = udph pkt := by
    unfold dhcp
    omega
  have hpos : 0 ≤ udph pkt := Int.natCast_nonneg _
  unfold minbootplen dhcp udphdrLength at ha
  unfold updateLengths
  simp only [hlen, hudph]
  rw [store_of_ge, store_of_ge, store_of_ge, store_of_ge]
  · split
    · rename_i hlt
      apply store_of_ge
      unfold minbootplen at hlt ⊢
      rw [List.length_replicate, hsp]
      unfold dhcp udphdrLength
      omega
    · rfl
  · simp only [uhUlenOff, length_htonsBytes]
    omega
  · simp only [uhSumOff, List.length_cons, List.length_nil]
    omega
  · simp only [ipLenOff, length_htonsBytes]
    omega
  · simp only [ipSumOff, List.length_cons, List.length_nil]
    omega

end lengths

/-! ## Reading the option -/

section validate

variable {host : Host} {pkt : Packet} {buf : ℤ} {ifIndex : UInt32} {remoteId : List UInt8}

/-- The body of a relay agent option, piece by piece. -/
theorem agentOptionBody_bytes
    (h : slice pkt buf (remoteId.length + 8) = agentOptionBody ifIndex remoteId) :
    pkt buf = dhcpRaiCircuitId ∧ pkt (buf + 1) = 4 ∧
      slice pkt (buf + 2) 4 = beBytes 4 ifIndex.toNat ∧ pkt (buf + 6) = dhcpRaiRemoteId ∧
      pkt (buf + 7) = UInt8.ofNat remoteId.length ∧
      slice pkt (buf + 8) remoteId.length = remoteId := by
  rw [Nat.add_comm, show 8 + remoteId.length = 2 + (4 + (2 + remoteId.length)) by omega,
    slice_add, slice_add _ _ 4, slice_add _ _ 2, agentOptionBody, List.append_assoc,
    List.append_assoc] at h
  obtain ⟨hcircuit, h⟩ := List.append_inj h (by simp)
  obtain ⟨hindex, h⟩ := List.append_inj h (by simp)
  obtain ⟨hremote, hid⟩ := List.append_inj h (by simp)
  have hshift : ∀ a : ℤ, a + (2 : ℕ) + (4 : ℕ) = a + 6 := fun a => by omega
  rw [hshift, slice_succ, slice_succ, slice_zero] at hremote
  rw [slice_succ, slice_succ, slice_zero] at hcircuit
  rw [hshift, add_assoc, show (6 : ℤ) + (2 : ℕ) = 8 from rfl] at hid
  rw [add_assoc] at hremote
  simp only [List.cons.injEq, and_true] at hcircuit hremote
  exact ⟨hcircuit.1, hcircuit.2, hindex, hremote.1, hremote.2, hid⟩

/-- The loop over the suboptions finds both ids. -/
theorem suboptionLoop_eq (hlen : remoteId.length < 248)
    (h : slice pkt buf (remoteId.length + 8) = agentOptionBody ifIndex remoteId) (rounds : ℕ) :
    suboptionLoop pkt buf (remoteId.length + 8 : ℕ) (rounds + 3) 0 {}
      = some { circuitIdLen := 4, circuitIdPtr := some (buf + 2)
               remoteIdLen := remoteId.length, remoteIdPtr := some (buf + 8) } := by
  obtain ⟨hcircuit, hfour, -, hremote, hsize, -⟩ := agentOptionBody_bytes h
  have hsize' : (UInt8.ofNat remoteId.length).toNat = remoteId.length := by
    rw [UInt8.toNat_ofNat']
    omega
  -- the circuit id
  rw [suboptionLoop, if_neg (by omega), add_zero, zero_add, hcircuit, hfour]
  simp only [show (4 : UInt8).toNat = 4 from rfl]
  rw [if_neg (by omega), if_pos trivial]
  -- the remote id
  show suboptionLoop pkt buf _ (rounds + 2) 6 _ = _
  rw [suboptionLoop, if_neg (by omega), hremote, show buf + (6 + 1) = buf + 7 by omega, hsize]
  simp only [hsize']
  rw [if_neg (by omega), if_neg (by decide), if_pos trivial]
  show suboptionLoop pkt buf _ (rounds + 1) (8 + (remoteId.length : ℤ)) _ = _
  rw [suboptionLoop, if_pos (by omega)]
  rfl

/-- An option of the relay's own form is accepted exactly if its remote id is one of the
interface's, and then the circuit id is recovered. -/
theorem validate_agentOptionBody (ifName : CString) (pktInfo : Option82Options)
    (rId : RemoteId) (hrId : remoteId.length = remoteIdLength rId)
    (hmac : rId = .mac → host.getMacfromIfname ifName = remoteId)
    (h : slice pkt buf (remoteId.length + 8) = agentOptionBody ifIndex remoteId) :
    (∃ pktInfo', dhcpRelayValidateAgentOption host pkt buf (remoteId.length + 8 : ℕ) ifName
        pktInfo rId = (.ok, pktInfo') ∧ pktInfo'.circuitId = ifIndex) ↔
      (rId = .ip → host.ipExistsOnInterface ifName (UInt32.ofNat (leVal remoteId)) = true) := by
  obtain ⟨-, -, hindex, -, -, hid⟩ := agentOptionBody_bytes h
  have hcircuit : UInt32.ofNat (beVal (beBytes 4 ifIndex.toNat)) = ifIndex := by
    rw [beVal_beBytes ifIndex.toNat_lt, UInt32.ofNat_toNat]
  have hlt : remoteId.length < 248 := by
    rw [hrId]
    cases rId <;> decide
  have hrounds : ((remoteId.length + 8 : ℕ) : ℤ).toNat + 1 = remoteId.length + 6 + 3 := by omega
  unfold dhcpRelayValidateAgentOption
  rw [hrounds, suboptionLoop_eq hlt h]
  simp only [ne_eq, not_true_eq_false, if_false, hindex, hcircuit]
  cases rId with
  | mac =>
    have hsix : remoteId.length = macHeaderLength := hrId
    have hlocal : localMac host ifName = remoteId := by
      rw [localMac, hmac rfl, List.take_append_of_le_length (by omega), ← hsix, List.take_length]
    rw [hsix] at hid
    simp [hsix, hid, hlocal]
  | ip =>
    have hfour : remoteId.length = 4 := hrId
    rw [hfour] at hid
    simp only [hfour, ipAt, hid, if_false, not_true_eq_false, true_imp_iff]
    cases host.ipExistsOnInterface ifName (UInt32.ofNat (leVal remoteId)) <;> simp

end validate

end Udpfwd
end IpApps
