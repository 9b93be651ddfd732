import Mathlib

/-!
# Decoded JSON values and Python exceptions

`Json` is what `json.loads` returns: an object is the member list of the text, and looking a name up
in the resulting `dict` finds its *last* member. `PyExc` names the exceptions the services tell apart
in their `except` clauses.
-/

namespace Embassy

/-- A decoded JSON value; a number keeps its text. -/
inductive Json
  | null
  | bool (b : Bool)
  | num (text : String)
  | str (s : String)
  | arr (elems : List Json)
  | obj (members : List (String × Json))

/-- Exceptions, as far as an `except` clause tells them apart. -/
inductive PyExc
  /-- `urllib.error.URLError` whose `reason` is a `TimeoutError`. -/
  | urlTimeout
  /-- `urllib.error.URLError` for any other reason. -/
  | urlError
  /-- A bare `TimeoutError`. -/
  | timeoutError
  | jsonDecodeError
  | unicodeDecodeError
  | typeError
  /-- Any other `Exception`. -/
  | other
  deriving DecidableEq, Repr

namespace Json

/-- `data.get(name)` on a `dict`. -/
def get? (members : List (String × Json)) (name : String) : Option Json :=
  (members.reverse.find? fun m => m.1 = name).map Prod.snd

/-- `v in {...}` for a set of strings: unhashable values raise `TypeError`. The value of a missing
name is `None`. -/
def inSet (strs : List String) : Option Json → Except PyExc Bool
  | some (.str s) => .ok (s ∈ strs)
  | some (.arr _) | some (.obj _) => .error .typeError
  | _ => .ok false

/-- `v if isinstance(v, str) else None`. -/
def str? : Option Json → Option String
  | some (.str s) => some s
  | _ => none

end Json

end Embassy
