import IpApps.Udpfwd.StampValidate

/-!
# The lowest address of an interface

`getLowestIpOnInterface` compares the addresses as the host reads them, the first octet being
the low byte, and so orders them by the last octet first. `returnsLowest_iff` says when the
address it finds is the lowest all the same.
-/

namespace IpApps
namespace Udpfwd

/-! ## Addresses in order -/

/-- An address as a number: the first octet counts most. -/
def numeric (ip : IpAddress) : ℕ := Libc.htonl ip.toNat

theorem le_maxUint32 (ip : IpAddress) : ip ≤ Host.maxUint32 :=
  UInt32.le_iff_toNat_le.mpr (Nat.le_of_lt_succ ip.toNat_lt)

/-- The octets of an address in their two orders. -/
theorem exists_octets (ip : IpAddress) :
    ∃ a b c d, a < 256 ∧ b < 256 ∧ c < 256 ∧ d < 256 ∧
      ip.toNat = a + b * 2 ^ 8 + c * 2 ^ 16 + d * 2 ^ 24 ∧
      numeric ip = d + c * 2 ^ 8 + b * 2 ^ 16 + a * 2 ^ 24 := by
  have hlt := ip.toNat_lt
  refine ⟨ip.toNat % 256, ip.toNat / 2 ^ 8 % 256, ip.toNat / 2 ^ 16 % 256,
    ip.toNat / 2 ^ 24 % 256, ?_, ?_, ?_, ?_, ?_, rfl⟩
  all_goals omega

theorem numeric_lt_maxUint32_iff (ip : IpAddress) :
    numeric ip < numeric Host.maxUint32 ↔ ip ≠ Host.maxUint32 := by
  have ⟨a, b, c, d, ha, hb, hc, hd, hip, hnumeric⟩ := exists_octets ip
  have hmax : numeric Host.maxUint32 = 0xffffffff := by decide
  have hmax' : Host.maxUint32.toNat = 0xffffffff := rfl
  rw [Ne, ← UInt32.toNat_inj, hnumeric, hip, hmax, hmax']
  omega

/-! ## The search -/

section search

variable {ips ips' : List IpAddress} {bound : IpAddress}

/-- The step of the search. -/
def lower (lowestIp ip : IpAddress) : IpAddress := if ip < lowestIp then ip else lowestIp

theorem lower_le_left (lowestIp ip : IpAddress) : lower lowestIp ip ≤ lowestIp := by
  unfold lower
  split
  · exact UInt32.le_of_lt ‹_›
  · exact UInt32.le_refl _

theorem lower_le_right (lowestIp ip : IpAddress) : lower lowestIp ip ≤ ip := by
  unfold lower
  split
  · exact UInt32.le_refl _
  · exact UInt32.not_lt.mp ‹_›

/-- The search does not rise. -/
theorem foldl_lower_le_bound : ips.foldl lower bound ≤ bound := by
  induction ips generalizing bound with
  | nil => exact UInt32.le_refl _
  | cons ip ips ih => exact UInt32.le_trans ih (lower_le_left bound ip)

/-- The search ends below every address of the list. -/
theorem foldl_lower_le {ip : IpAddress} (h : ip ∈ ips) : ips.foldl lower bound ≤ ip := by
  induction ips generalizing bound with
  | nil => exact absurd h List.not_mem_nil
  | cons first ips ih =>
    rw [List.foldl_cons]
    rcases List.mem_cons.mp h with heq | hmem
    · rw [heq]
      exact UInt32.le_trans foldl_lower_le_bound (lower_le_right bound first)
    · exact ih hmem

/-- What the search finds depends only on which addresses there are. -/
theorem foldl_lower_congr (h : ∀ ip, ip ∈ ips ↔ ip ∈ ips') :
    ips.foldl lower bound = ips'.foldl lower bound := by
  have hle : ∀ {ips ips' : List IpAddress}, (∀ ip, ip ∈ ips → ip ∈ ips') →
      ips'.foldl lower bound ≤ ips.foldl lower bound := by
    intro ips ips' hsub
    rcases foldl_lowest_mem ips bound with heq | hmem
    · exact UInt32.le_trans foldl_lower_le_bound (UInt32.le_of_eq heq.symm)
    · exact foldl_lower_le (hsub _ hmem)
  exact UInt32.le_antisymm (hle fun ip => (h ip).mpr) (hle fun ip => (h ip).mp)

end search

/-! ## The interface -/

/-- A name an interface can have. -/
structure IfName where
  name : CString
  length_lt : name.length < ifNamesize

/-- The list has the address for the interface. -/
def HasAddress (ifaddr : List IfAddrs) (intf : IfName) (ip : IpAddress) : Prop :=
  ⟨intf.name, .inet ip⟩ ∈ ifaddr

/-- The host while `getifaddrs` returns the list. -/
def Host.answering (host : Host) (ifaddr : List IfAddrs) : Host :=
  { host with getifaddrs := some ifaddr }

section lowest

variable {host : Host} {intf : IfName} {ifaddr : List IfAddrs}

/-- Below `IF_NAMESIZE` the comparison of names is exact. -/
theorem sameIfName_ifName (intf : IfName) (ifaName : CString) :
    sameIfName intf.name ifaName = true ↔ ifaName = intf.name := by
  have hlength := intf.length_lt
  rw [sameIfName_iff, List.take_of_length_le (Nat.le_of_lt hlength)]
  constructor
  · intro heq
    have hcut : (ifaName.take ifNamesize).length < ifNamesize := by
      rw [← heq]
      exact hlength
    rw [List.length_take] at hcut
    rw [heq, List.take_of_length_le (by omega)]
  · intro heq
    rw [heq, List.take_of_length_le (Nat.le_of_lt hlength)]

/-- The loop steps through the addresses of the interface. -/
theorem mem_ipsOnInterface_ifName {ip : IpAddress} :
    ip ∈ Host.ipsOnInterface intf.name ifaddr ↔ HasAddress ifaddr intf ip := by
  unfold Host.ipsOnInterface HasAddress
  rw [List.mem_filterMap]
  constructor
  · rintro ⟨⟨ifaName, ifaAddr⟩, hmem, hip⟩
    cases ifaAddr with
    | packet => exact absurd hip nofun
    | other => exact absurd hip nofun
    | inet addr =>
      simp only [Host.ipOnInterface, Option.ite_none_right_eq_some, sameIfName_ifName,
        Option.some.injEq] at hip
      rw [← hip.1, ← hip.2]
      exact hmem
  · intro hmem
    refine ⟨_, hmem, ?_⟩
    exact if_pos ((sameIfName_ifName intf _).mpr rfl)

/-- The least of the addresses as the host reads them. -/
def IsLeastRead (ifaddr : List IfAddrs) (intf : IfName) (ip : IpAddress) : Prop :=
  HasAddress ifaddr intf ip ∧ ∀ other, HasAddress ifaddr intf other → ip ≤ other

/-- The function returns the least address, with 0 in place of 255.255.255.255. -/
theorem getLowestIpOnInterface_of_isLeastRead {ip : IpAddress} (h : IsLeastRead ifaddr intf ip) :
    (host.answering ifaddr).getLowestIpOnInterface intf.name
      = if ip ≠ Host.maxUint32 then ip else 0 := by
  have hfold : (Host.ipsOnInterface intf.name ifaddr).foldl lower Host.maxUint32 = ip := by
    have hle : (Host.ipsOnInterface intf.name ifaddr).foldl lower Host.maxUint32 ≤ ip :=
      foldl_lower_le (mem_ipsOnInterface_ifName.mpr h.1)
    refine UInt32.le_antisymm hle ?_
    rcases foldl_lowest_mem (Host.ipsOnInterface intf.name ifaddr) Host.maxUint32 with heq | hmem
    · exact UInt32.le_trans (le_maxUint32 ip) (UInt32.le_of_eq heq.symm)
    · exact h.2 _ (mem_ipsOnInterface_ifName.mp hmem)
  show (if (Host.ipsOnInterface intf.name ifaddr).foldl lower Host.maxUint32 ≠ Host.maxUint32
    then (Host.ipsOnInterface intf.name ifaddr).foldl lower Host.maxUint32 else 0) = _
  rw [hfold]

/-- An interface with an address has a least one. -/
theorem exists_isLeastRead {ip : IpAddress} (h : HasAddress ifaddr intf ip) :
    ∃ least, IsLeastRead ifaddr intf least := by
  have hip := mem_ipsOnInterface_ifName.mpr h
  rcases foldl_lowest_mem (Host.ipsOnInterface intf.name ifaddr) ip with heq | hmem
  · exact ⟨ip, h, fun other hother =>
      heq ▸ foldl_lower_le (mem_ipsOnInterface_ifName.mpr hother)⟩
  · exact ⟨_, mem_ipsOnInterface_ifName.mp hmem, fun other hother =>
      foldl_lower_le (mem_ipsOnInterface_ifName.mpr hother)⟩

/-- Without an address the function returns 0. -/
theorem getLowestIpOnInterface_none (h : ∀ ip, ¬HasAddress ifaddr intf ip) :
    (host.answering ifaddr).getLowestIpOnInterface intf.name = 0 := by
  have hnil : Host.ipsOnInterface intf.name ifaddr = [] :=
    List.eq_nil_iff_forall_not_mem.mpr fun ip hip => h ip (mem_ipsOnInterface_ifName.mp hip)
  show (if (Host.ipsOnInterface intf.name ifaddr).foldl lower Host.maxUint32 ≠ Host.maxUint32
    then _ else _) = _
  rw [hnil]
  exact if_neg fun hne => hne rfl

/-- The order of the list makes no difference. -/
theorem getLowestIpOnInterface_perm {ifaddr' : List IfAddrs} (h : ifaddr'.Perm ifaddr) :
    (host.answering ifaddr').getLowestIpOnInterface intf.name
      = (host.answering ifaddr).getLowestIpOnInterface intf.name := by
  have hfold : (Host.ipsOnInterface intf.name ifaddr').foldl lower Host.maxUint32
      = (Host.ipsOnInterface intf.name ifaddr).foldl lower Host.maxUint32 :=
    foldl_lower_congr fun ip => (h.filterMap _).mem_iff
  show (if (Host.ipsOnInterface intf.name ifaddr').foldl lower Host.maxUint32 ≠ Host.maxUint32
    then (Host.ipsOnInterface intf.name ifaddr').foldl lower Host.maxUint32 else 0) = _
  rw [hfold]
  rfl

/-- The interface has an address below 255.255.255.255. -/
def HasUsable (ifaddr : List IfAddrs) (intf : IfName) : Prop :=
  ∃ ip, HasAddress ifaddr intf ip ∧ numeric ip < numeric Host.maxUint32

/-- The function returns the address of the interface that is lowest as an IPv4 address. -/
structure ReturnsLowest (host : Host) (ifaddr : List IfAddrs) (intf : IfName) : Prop where
  lowest : HasUsable ifaddr intf →
    HasAddress ifaddr intf ((host.answering ifaddr).getLowestIpOnInterface intf.name) ∧
      ∀ ip, HasAddress ifaddr intf ip →
        numeric ((host.answering ifaddr).getLowestIpOnInterface intf.name) ≤ numeric ip
  zero_iff : (host.answering ifaddr).getLowestIpOnInterface intf.name = 0 ↔
    ¬HasUsable ifaddr intf
  order : ∀ ifaddr', ifaddr'.Perm ifaddr →
    (host.answering ifaddr').getLowestIpOnInterface intf.name
      = (host.answering ifaddr).getLowestIpOnInterface intf.name

/-- Where the least address as the host reads them is 255.255.255.255, there is no other. -/
theorem IsLeastRead.hasUsable_iff {ip : IpAddress} (h : IsLeastRead ifaddr intf ip) :
    HasUsable ifaddr intf ↔ ip ≠ Host.maxUint32 := by
  constructor
  · rintro ⟨other, hother, hlt⟩ heq
    rw [numeric_lt_maxUint32_iff] at hlt
    have hle := h.2 other hother
    rw [heq] at hle
    refine hlt (UInt32.le_antisymm ?_ hle)
    exact le_maxUint32 other
  · exact fun hne => ⟨ip, h.1, (numeric_lt_maxUint32_iff ip).mpr hne⟩

/-- The function returns the lowest address exactly when 0.0.0.0 is none of the interface, and
its least address as the host reads them is also the lowest. -/
theorem returnsLowest_iff (host : Host) (ifaddr : List IfAddrs) (intf : IfName) :
    ReturnsLowest host ifaddr intf ↔
      ¬HasAddress ifaddr intf 0 ∧
        ∀ ip, IsLeastRead ifaddr intf ip →
          ∀ other, HasAddress ifaddr intf other → numeric ip ≤ numeric other := by
  constructor
  · intro h
    constructor
    · intro hzero
      -- 0.0.0.0 is below every address as the code reads them
      have hleast : IsLeastRead ifaddr intf 0 :=
        ⟨hzero, fun other _ => UInt32.le_iff_toNat_le.mpr (Nat.zero_le _)⟩
      have hresult : (host.answering ifaddr).getLowestIpOnInterface intf.name = 0 :=
        getLowestIpOnInterface_of_isLeastRead hleast
      exact h.zero_iff.mp hresult (hleast.hasUsable_iff.mpr (by decide))
    · intro ip hleast other hother
      by_cases hne : ip ≠ Host.maxUint32
      · -- an address below the maximum is the one returned
        have hlowest := (h.lowest (hleast.hasUsable_iff.mpr hne)).2 other hother
        rw [getLowestIpOnInterface_of_isLeastRead hleast, if_pos hne] at hlowest
        exact hlowest
      · -- the least is the maximum, and no address is below it
        have hother' := mt (fun hlt => hleast.hasUsable_iff.mp ⟨other, hother, hlt⟩) hne
        rw [not_not.mp hne]
        exact Nat.le_of_not_lt hother'
  · rintro ⟨hzero, hlowest⟩
    refine ⟨?_, ?_, fun ifaddr' hperm => getLowestIpOnInterface_perm hperm⟩
    · intro husable
      have ⟨ip, hip, _⟩ := husable
      have ⟨least, hleast⟩ := exists_isLeastRead hip
      rw [getLowestIpOnInterface_of_isLeastRead hleast, if_pos (hleast.hasUsable_iff.mp husable)]
      exact ⟨hleast.1, hlowest least hleast⟩
    · -- 0.0.0.0 is returned for an interface without usable address only
      by_cases hany : ∃ ip, HasAddress ifaddr intf ip
      · have ⟨ip, hip⟩ := hany
        have ⟨least, hleast⟩ := exists_isLeastRead hip
        rw [getLowestIpOnInterface_of_isLeastRead hleast, hleast.hasUsable_iff]
        by_cases hne : least ≠ Host.maxUint32
        · rw [if_pos hne]
          refine iff_of_false (fun heq => hzero ?_) (not_not.mpr hne)
          rw [← heq]
          exact hleast.1
        · rw [if_neg hne]
          exact iff_of_true rfl hne
      · have hnone : ∀ ip, ¬HasAddress ifaddr intf ip := not_exists.mp hany
        refine iff_of_true (getLowestIpOnInterface_none hnone) ?_
        exact fun husable => hany ⟨_, husable.choose_spec.1⟩

/-- Of 10.0.0.2 and 10.0.1.1 the function returns the second. -/
theorem secondSubnet_returned :
    ¬∀ host ifaddr intf, ReturnsLowest host ifaddr intf := by
  intro h
  let host : Host := ⟨none, none, fun _ => none, fun _ => true, Vector.replicate 6 0⟩
  let ifaddr : List IfAddrs := [⟨['1'], .inet 0x0200000a⟩, ⟨['1'], .inet 0x0101000a⟩]
  have hlowest := (h host ifaddr ⟨['1'], by decide⟩).lowest
    ⟨0x0200000a, List.mem_cons_self, by decide⟩
  exact absurd (hlowest.2 0x0200000a List.mem_cons_self) (by decide)

end lowest

end Udpfwd
end IpApps
