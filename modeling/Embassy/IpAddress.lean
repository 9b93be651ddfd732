import Mathlib

/-!
# IP address literals (Python's `ipaddress`)

`ipAddress` reads an IPv4 or IPv6 literal as `ipaddress.ip_address` does.
-/

namespace Embassy

inductive IpAddress
  | v4 (a : BitVec 32)
  | v6 (a : BitVec 128) (scope : Option (List Char))
  deriving DecidableEq

/-- A decimal octet: at most three digits, no leading zero, at most 255. -/
def parseOctet (s : List Char) : Option ℕ :=
  if s ≠ [] ∧ s.all Char.isDigit ∧ s.length ≤ 3 ∧ (s = ['0'] ∨ s.head? ≠ some '0') then
    let n := s.foldl (fun n c => 10 * n + (c.toNat - '0'.toNat)) 0
    if n ≤ 255 then some n else none
  else none

/-- `IPv4Address` -/
def parseIPv4 (s : List Char) : Option (BitVec 32) :=
  if '/' ∈ s then none
  else
    match (s.splitOn '.').mapM parseOctet with
    | some [a, b, c, d] => some (BitVec.ofNat 32 (((a * 256 + b) * 256 + c) * 256 + d))
    | _ => none

def hexDigit? (c : Char) : Option ℕ :=
  if c.isDigit then some (c.toNat - '0'.toNat)
  else if 'a' ≤ c ∧ c ≤ 'f' then some (c.toNat - 'a'.toNat + 10)
  else if 'A' ≤ c ∧ c ≤ 'F' then some (c.toNat - 'A'.toNat + 10)
  else none

/-- One to four hexadecimal digits. -/
def parseHextet (s : List Char) : Option ℕ :=
  if s = [] ∨ 4 < s.length then none
  else (s.mapM hexDigit?).map fun ds => ds.foldl (fun n d => 16 * n + d) 0

/-- The parts between colons, where an IPv4 suffix counts for two hextets. -/
def hextets (s : List Char) : Option (List (Option ℕ)) :=
  let parts := s.splitOn ':'
  if parts.length < 3 then none
  else
    let hextet (part : List Char) : Option (Option ℕ) :=
      if part = [] then some none else (parseHextet part).map some
    match parts.getLast? with
    | some suffix =>
      if '.' ∈ suffix then
        match parts.dropLast.mapM hextet, parseIPv4 suffix with
        | some init, some a => some (init ++ [some (a.toNat / 65536), some (a.toNat % 65536)])
        | _, _ => none
      else parts.mapM hextet
    | none => none

def hextetsVal (hs : List ℕ) : ℕ := hs.foldl (fun n h => 65536 * n + h) 0

/-- The hextets of the address: an empty part that is not at an end is the one `::`; an end may be empty
only next to it. -/
def expand (parts : List (Option ℕ)) : Option (List ℕ) :=
  match (List.range parts.length).filter fun i => 0 < i ∧ i + 1 < parts.length ∧ parts.getD i none = none with
  | [] => if parts.length = 8 then parts.mapM id else none
  | [skip] =>
    let hi := parts.take skip
    let lo := parts.drop (skip + 1)
    let hi := if hi = [none] then [] else hi
    let lo := if lo = [none] then [] else lo
    if hi.length + lo.length < 8 then
      match hi.mapM id, lo.mapM id with
      | some hi, some lo => some (hi ++ List.replicate (8 - (hi.length + lo.length)) 0 ++ lo)
      | _, _ => none
    else none
  | _ => none

/-- `IPv6Address` -/
def parseIPv6 (s : List Char) : Option IpAddress :=
  if '/' ∈ s then none
  else
    let addr := s.takeWhile (· ≠ '%')
    let scope : Option (Option (List Char)) :=
      match s.drop addr.length with
      | [] => some none
      | _ :: scope => if scope = [] ∨ '%' ∈ scope then none else some (some scope)
    match scope, (hextets addr).bind expand with
    | some scope, some hs => some (.v6 (BitVec.ofNat 128 (hextetsVal hs)) scope)
    | _, _ => none

/-- `ipaddress.ip_address` of a string; `none` is its `ValueError`. -/
def ipAddress (s : String) : Option IpAddress :=
  match parseIPv4 s.toList with
  | some a => some (.v4 a)
  | none => parseIPv6 s.toList

example : ipAddress "::ffff:100.64.0.5" = some (.v6 0xFFFF64400005#128 none) := by decide

end Embassy
