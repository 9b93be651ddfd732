import Embassy.JsonLoads
import Embassy.PyJson

/-!
# Truth values and zeros of decoded JSON
-/

namespace Embassy

namespace Json

/-- `digits * 10 ** -shift` as a float is zero: it is at most half of the least positive float. -/
def decimalIsZero (digits : List Char) (shift : ℤ) : Bool :=
  let n := digitsVal digits
  -- from here on the value is below 10 ** -324
  n = 0 ∨ digits.length + 324 ≤ shift ∨ 0 < shift ∧ n * 2 ^ 1075 ≤ 10 ^ shift.toNat

/-- The value of an exponent as it was scanned, with its letter and sign. -/
def exponentVal : List Char → ℤ
  | [] => 0
  | _ :: '-' :: digits => -(digitsVal digits : ℤ)
  | _ :: '+' :: digits | _ :: digits => digitsVal digits

/-- The number with this text is zero; the infinities and `NaN` are not. -/
def numIsZero (text : String) : Bool :=
  match intDigits (numberSign text.toList).2 with
  | none => false
  | some int =>
    let frac := fraction int.2
    let exp := exponent frac.2
    decimalIsZero (int.1 ++ frac.1.drop 1) ((frac.1.drop 1).length - exponentVal exp.1)

/-- `v == 0` -/
def isZero : Json → Bool
  | bool b => !b
  | num text => numIsZero text
  | _ => false

/-- `bool(v)` -/
def truthy : Json → Bool
  | null => false
  | bool b => b
  | num text => !numIsZero text
  | str s => s ≠ ""
  | arr elems => !elems.isEmpty
  | obj members => !members.isEmpty

/-- `v or w`, where a missing name reads as `None`. -/
def orElse (v : Option Json) (w : Json) : Json :=
  match v with
  | some v => if v.truthy then v else w
  | none => w

example : ["0", "-0.00", "0e7", "1e-400", "2E-324", "4.9e-324", "3e-1", "10", "NaN"].map numIsZero =
    [true, true, true, true, true, false, false, false, false] := by decide +kernel

end Json

end Embassy
