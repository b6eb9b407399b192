import IpApps.InetPton

/-!
# `inet_pton` for IPv6

Whether a string is an IPv6 address: groups of up to four hexadecimal digits, of which `::` leaves
some out, and a dotted address in place of the last two.
-/

namespace IpApps
namespace Libc

/-- The end of `inet_pton6`, with `tp` bytes written of 16 and `xdigitsSeen` digits of a group;
`colonp` says whether there was a `::`. -/
def inetPton6End (tp xdigitsSeen : ℕ) (colonp : Bool) : Bool :=
  if 0 < xdigitsSeen ∧ 16 < tp + 2 then false
  else
    let tp := if 0 < xdigitsSeen then tp + 2 else tp
    if colonp then tp ≠ 16 else tp = 16

/-- The loop of `inet_pton6`; `curtok` is the text behind the last colon. -/
def inetPton6Loop : (tp xdigitsSeen : ℕ) → (colonp : Bool) → (curtok : CString) → CString → Bool
  | tp, xdigitsSeen, colonp, _, [] => inetPton6End tp xdigitsSeen colonp
  | tp, xdigitsSeen, colonp, curtok, ch :: src =>
    if (digitValue ch).isSome then
      if xdigitsSeen = 4 then false else inetPton6Loop tp (xdigitsSeen + 1) colonp curtok src
    else if ch = ':' then
      if xdigitsSeen = 0 then if colonp then false else inetPton6Loop tp 0 true src src
      else if src = [] ∨ 16 < tp + 2 then false
      else inetPton6Loop (tp + 2) 0 colonp src src
    else if ch = '.' ∧ tp + 4 ≤ 16 ∧ (inetPton curtok).isSome then inetPton6End (tp + 4) 0 colonp
    else false

/-- Whether `inet_pton` returns 1 for an IPv6 address. -/
def inetPton6 (src : CString) : Bool :=
  match src with
  | [] => false
  | ':' :: src => if src.head? = some ':' then inetPton6Loop 0 0 false src src else false
  | _ => inetPton6Loop 0 0 false src src

example : inetPton6 "2001:db8::10.0.0.1".toList = true := by decide
example : inetPton6 "1:2:3:4:5:6:7".toList = false := by decide

end Libc
end IpApps
