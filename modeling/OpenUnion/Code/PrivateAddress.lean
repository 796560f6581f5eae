import OpenUnion.Text.IpAddress

/-!
# Private and special addresses

The filter that keeps the verifier of origins off private networks looks at the text of an
address: at the first two octets of an IPv4 text, and at how an IPv6 text begins.
-/

namespace OpenUnion

open Text

/-- `isPrivateOrSpecialIpv4`.  It is only called with numbers of digits between dots, of which
`Number` is the decimal value. -/
def isPrivateOrSpecialIpv4 (ip : List Char) : Bool :=
  match (ip.splitOn '.').map decimalValue with
  | [some a, some b, some c, some d] =>
      if 255 < a ∨ 255 < b ∨ 255 < c ∨ 255 < d then true
      else if a = 0 then true
      else if a = 10 then true
      else if a = 127 then true
      else if a = 169 ∧ b = 254 then true
      else if a = 172 ∧ 16 ≤ b ∧ b ≤ 31 then true
      else if a = 192 ∧ b = 168 then true
      else if a = 192 ∧ b = 0 then true
      else if a = 192 ∧ b = 88 then true
      else if a = 198 ∧ (b = 18 ∨ b = 19) then true
      else if a = 192 ∧ b = 2 then true
      else if a = 198 ∧ b = 51 then true
      else if a = 203 ∧ b = 0 then true
      else decide (224 ≤ a)
  | _ => true

/-- The beginnings of unique local and link-local addresses. -/
def localPrefixes : List (List Char) :=
  ["fc".toList, "fd".toList, "fe8".toList, "fe9".toList, "fea".toList, "feb".toList]

/-- The group of `/^::ffff:(\d+\.\d+\.\d+\.\d+)$/`. -/
def mappedPart (lower : List Char) : Option (List Char) :=
  if "::ffff:".toList <+: lower then
    let rest := lower.drop 7
    let parts := rest.splitOn '.'
    if parts.length = 4 ∧ parts.all fun p => (decimalValue p).isSome then some rest else none
  else none

/-- `isPrivateOrSpecialIpv6`, for a text in lower case. -/
def isPrivateOrSpecialIpv6 (lower : List Char) : Bool :=
  if lower = "::".toList ∨ lower = "::1".toList then true
  else if localPrefixes.any fun p => decide (p <+: lower) then true
  else
    match mappedPart lower with
    | some ip => isPrivateOrSpecialIpv4 ip
    | none => false

/-- `isPrivateOrSpecialIp`; addresses are ASCII. -/
def isPrivateOrSpecialIp (ip : String) : Bool :=
  if isIP ip = 4 then isPrivateOrSpecialIpv4 ip.toList
  else if isIP ip = 6 then isPrivateOrSpecialIpv6 (ip.toList.map Char.toLower)
  else true

end OpenUnion
