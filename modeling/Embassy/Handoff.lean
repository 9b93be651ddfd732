import Embassy.Urlopen

/-!
# verify's handoff to the internal agent (`verify/agent_handoff.py`)

`postAction` is one attempt, with the exception class each transport failure surfaces as. The body of an error
response is read inside the `except` clause. `executeHandoff` retries once on a timeout.
-/

namespace Embassy

/-- The first component of `_post_action`'s result. -/
inductive Transport
  | response
  | timeout
  | down
  deriving DecidableEq, Repr

def maxResponseBytes : ℕ := 64 * 1024

/-- The `except` clauses of `_post_action` after `HTTPError`. -/
def postActionExcept : PyExc → Transport × ℕ × List UInt8
  | .urlTimeout => (.timeout, 0, [])
  | .urlError => (.down, 0, [])
  | .timeoutError => (.timeout, 0, [])
  | _ => (.down, 0, [])

/-- `_post_action`. Reading an error body happens inside the `except` clause: what it raises
escapes. -/
def postAction (o : Attempt) : Except PyExc (Transport × ℕ × List UInt8) :=
  match urlopen .post [] o with
  | .returned r =>
    match r.readUpTo maxResponseBytes with
    | .ok body => .ok (.response, r.status, body)
    | .error e => .ok (postActionExcept e)
  | .httpError r => do
    let body ← r.read
    return (.response, r.status, body)
  | .raised e => .ok (postActionExcept e)

/-- `HandoffResult`: `kind == "ok"` with `status == "executed"` or `"failed"`, or one of the other
kinds. -/
inductive HandoffResult
  | executed (channel decidedBy reference : String)
  | failed (channel decidedBy reference : Option String)
  | down
  | unknown
  deriving DecidableEq, Repr

def validStatuses : List String := ["executed", "failed"]

def validDecidedBy : List String := ["rules", "llm"]

/-- The "executed" checks of `_parse_ok_body`. -/
def parseExecuted (channel decidedBy reference : Option Json) : Except PyExc (Option HandoffResult) :=
  match Json.str? channel with
  | none => .ok none
  | some channel => do
    if !(← Json.inSet validDecidedBy decidedBy) then return none
    else
      match Json.str? decidedBy, Json.str? reference with
      | some decidedBy, some reference =>
        if reference = "" then return none else return some (.executed channel decidedBy reference)
      | _, _ => return none

/-- `_parse_ok_body` on a decoded object. -/
def parseObject (data : List (String × Json)) (expectedActionId : String) :
    Except PyExc (Option HandoffResult) := do
  let status := Json.get? data "status"
  let channel := Json.get? data "channel"
  let decidedBy := Json.get? data "decided_by"
  let reference := Json.get? data "reference"
  if Json.str? (Json.get? data "action_id") ≠ some expectedActionId then return none
  else if !(← Json.inSet validStatuses status) then return none
  else if Json.str? status = some "executed" then parseExecuted channel decidedBy reference
  else return some (.failed (Json.str? channel) (Json.str? decidedBy) (Json.str? reference))

section
variable (loads : List UInt8 → Except PyExc Json)

/-- `_parse_ok_body`: `ok none` is Python's `None`; only the two decoding exceptions are caught. -/
def parseOkBody (body : List UInt8) (expectedActionId : String) :
    Except PyExc (Option HandoffResult) :=
  match loads body with
  | .error .jsonDecodeError | .error .unicodeDecodeError => .ok none
  | .error e => .error e
  | .ok (.obj data) => parseObject data expectedActionId
  | .ok _ => .ok none

/-- The tests of `execute_handoff` on the last attempt's result. -/
def verdict (actionId : String) : Transport × ℕ × List UInt8 → Except PyExc HandoffResult
  | (.timeout, _, _) => .ok .unknown
  | (.down, _, _) => .ok .down
  | (.response, status, body) =>
    if status ≠ 200 then .ok .down
    else do
      match ← parseOkBody loads body actionId with
      | none => return .unknown
      | some r => return r

/-- `execute_handoff`, with what the network does to the first attempt and, if there is one, to the
retry. -/
def executeHandoff (actionId : String) (first second : Attempt) : Except PyExc HandoffResult := do
  let result ← postAction first
  if result.1 = .timeout then verdict loads actionId (← postAction second)
  else verdict loads actionId result

end

end Embassy
