import Embassy.PyValue

/-!
# `json.dumps` and typed reads of decoded values
-/

namespace Embassy

/-- `\uXXXX` for one UTF-16 code unit. -/
def hexEscape (n : ℕ) : List Char :=
  [Char.ofNat 0x5C, 'u', Nat.digitChar (n / 4096 % 16), Nat.digitChar (n / 256 % 16),
    Nat.digitChar (n / 16 % 16), Nat.digitChar (n % 16)]

/-- One character of an `ensure_ascii` string. -/
def dumpsChar (c : Char) : List Char :=
  let n := c.toNat
  let backslash := Char.ofNat 0x5C
  if n = 0x22 ∨ n = 0x5C then [backslash, c]
  else if n = 0x08 then [backslash, 'b']
  else if n = 0x09 then [backslash, 't']
  else if n = 0x0A then [backslash, 'n']
  else if n = 0x0C then [backslash, 'f']
  else if n = 0x0D then [backslash, 'r']
  else if 0x20 ≤ n ∧ n ≤ 0x7E then [c]
  else if n < 0x10000 then hexEscape n
  else hexEscape (0xD800 + (n - 0x10000) / 0x400) ++ hexEscape (0xDC00 + (n - 0x10000) % 0x400)

/-- `json.dumps` of a string. -/
def dumpsStr (s : String) : String :=
  String.ofList (Char.ofNat 0x22 :: s.toList.flatMap dumpsChar ++ [Char.ofNat 0x22])

/-- `json.dumps` of a list of strings. -/
def dumpsStrs (strs : List String) : String := "[" ++ ", ".intercalate (strs.map dumpsStr) ++ "]"

/-- The value of a run of decimal digits. -/
def digitsVal (digits : List Char) : ℕ := digits.foldl (fun n c => 10 * n + (c.toNat - '0'.toNat)) 0

/-- The value of an integer literal; a literal with a fraction or an exponent has none, nor have `NaN` and
the infinities. -/
def intLiteral : List Char → Option ℤ
  | '-' :: digits => if digits ≠ [] ∧ digits.all Char.isDigit then some (-(digitsVal digits : ℤ)) else none
  | digits => if digits ≠ [] ∧ digits.all Char.isDigit then some (digitsVal digits) else none

namespace Json

/-- `v` if `isinstance(v, int)`; a `bool` is an `int`. -/
def int? : Json → Option ℤ
  | bool b => some (if b then 1 else 0)
  | num text => intLiteral text.toList
  | _ => none

/-- `data.keys()` of a `dict`: distinct, in the order of their first occurrence. -/
def keys (members : List (String × Json)) : List String := (members.map Prod.fst).eraseDups

end Json

end Embassy
