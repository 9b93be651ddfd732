import Embassy.Lib.Dict
import Embassy.Lib.Runs
import Mathlib

/-!
# The internal agent's `POST /internal/actions` (`agent/main.py`)

`step` is `execute_action` cut into the pieces other requests can fall between: `_action_lock`,
acquiring the lock object, the look-up in `_results`, the call of `channels.execute` and its return,
`_store_result`, and leaving the `with` block. Lock objects have identities: `_action_locks` maps an
action to the lock object a *new* request will get, while a request in flight keeps the object it
was handed. What `_decide_and_execute` answers is the environment's choice.
-/

namespace Embassy
open Lib

namespace Agent

/-- The identity of a `threading.Lock` object. -/
abbrev LockId := ℕ

inductive ActionStatus
  | executed
  | failed
  deriving DecidableEq, Repr

/-- The response body of `POST /internal/actions`. -/
structure ActionBody where
  actionId : String
  status : ActionStatus
  channel : Option String
  decidedBy : Option String
  reference : Option String
  detail : String
  deriving DecidableEq, Repr

/-- Where a request stands in `execute_action`. -/
inductive Pc
  /-- The token and the payload are valid. -/
  | arrived
  /-- `_action_lock` returned this lock object. -/
  | obtained (lock : LockId)
  /-- The lock object is acquired. -/
  | acquired (lock : LockId)
  /-- `_results` held nothing: `_decide_and_execute` is deciding. -/
  | deciding (lock : LockId)
  /-- Inside `channels.execute`. -/
  | executing (lock : LockId)
  /-- `_decide_and_execute` returned `body`. -/
  | decided (lock : LockId) (body : ActionBody)
  /-- The body to return is known; the lock is still held. -/
  | leaving (lock : LockId) (body : ActionBody)
  /-- Answered 200 with `body`. -/
  | answered (body : ActionBody)
  /-- Answered with an error status. -/
  | refused (status : ℕ)
  deriving DecidableEq, Repr

namespace Pc

/-- The lock object a request refers to. -/
def lock? : Pc → Option LockId
  | arrived | answered _ | refused _ => none
  | obtained l | acquired l | deciding l | executing l | decided l _ | leaving l _ => some l

/-- The lock object a request holds. -/
def held? : Pc → Option LockId
  | arrived | obtained _ | answered _ | refused _ => none
  | acquired l | deciding l | executing l | decided l _ | leaving l _ => some l

end Pc

structure Request where
  actionId : String
  pc : Pc
  deriving DecidableEq, Repr

/-- The agent's shared state, the requests in flight, and what happened so far (`executions`: the
`channels.execute` calls; `stored`: the action ids ever stored). -/
structure State where
  results : Dict String ActionBody
  actionLocks : Dict String LockId
  nextLock : LockId
  held : LockId → Bool
  requests : ℕ → Option Request
  executions : List String
  stored : Finset String

def State.init : State :=
  ⟨.empty, .empty, 0, fun _ => false, fun _ => none, [], ∅⟩

inductive Act
  | arrive (i : ℕ) (actionId : String) (tokenOk payloadOk : Bool)
  | obtain (i : ℕ)
  | acquire (i : ℕ)
  | lookUp (i : ℕ)
  | execute (i : ℕ)
  | executed (i : ℕ) (body : ActionBody)
  | refuse (i : ℕ) (body : ActionBody)
  | raise (i : ℕ)
  | store (i : ℕ)
  | release (i : ℕ)
  deriving Repr

/-- Request `i`, for action `a`, is now at `pc`. -/
def State.goto (s : State) (i : ℕ) (a : String) (pc : Pc) : State :=
  { s with requests := Function.update s.requests i (some ⟨a, pc⟩) }

/-- `_action_lock`: the lock object in the table, or a new one. -/
def State.actionLock (s : State) (actionId : String) : LockId × State :=
  match s.actionLocks.get? actionId with
  | some l => (l, s)
  | none =>
    (s.nextLock,
      { s with actionLocks := s.actionLocks.set actionId s.nextLock, nextLock := s.nextLock + 1 })

/-- `_store_result`: store, evict the oldest results past `RESULT_MAP_MAX`, then drop every lock
whose action has no stored result. -/
def State.storeResult (resultMapMax : ℕ) (s : State) (actionId : String) (body : ActionBody) : State :=
  let results := s.results.set actionId body
  let results :=
    if results.entries.length > resultMapMax then
      results.dropOldest (results.entries.length - resultMapMax)
    else results
  { s with
    results := results
    actionLocks := s.actionLocks.filter fun k _ => k ∈ results.keys
    stored := insert actionId s.stored }

def step (resultMapMax : ℕ) (s : State) : Act → Option State
  | .arrive i actionId tokenOk payloadOk =>
    match s.requests i with
    | none =>
      if !tokenOk then some (s.goto i actionId (.refused 403))
      else if !payloadOk then some (s.goto i actionId (.refused 422))
      else some (s.goto i actionId .arrived)
    | some _ => none
  | .obtain i =>
    match s.requests i with
    | some ⟨a, .arrived⟩ => let (l, s) := s.actionLock a; some (s.goto i a (.obtained l))
    | _ => none
  | .acquire i =>
    match s.requests i with
    | some ⟨a, .obtained l⟩ =>
      if s.held l then none
      else some ({ s with held := Function.update s.held l true }.goto i a (.acquired l))
    | _ => none
  | .lookUp i =>
    match s.requests i with
    | some ⟨a, .acquired l⟩ =>
      match s.results.get? a with
      | some body => some (s.goto i a (.leaving l body))
      | none => some (s.goto i a (.deciding l))
    | _ => none
  | .execute i =>
    match s.requests i with
    | some ⟨a, .deciding l⟩ =>
      some ({ s with executions := s.executions ++ [a] }.goto i a (.executing l))
    | _ => none
  | .executed i body =>
    match s.requests i with
    | some ⟨a, .executing l⟩ => some (s.goto i a (.decided l body))
    | _ => none
  -- no channel: `_decide_and_execute` answers "failed" without calling `channels.execute`
  | .refuse i body =>
    match s.requests i with
    | some ⟨a, .deciding l⟩ => some (s.goto i a (.decided l body))
    | _ => none
  -- the routing decision itself raises; the `with` block releases the lock
  | .raise i =>
    match s.requests i with
    | some ⟨a, .deciding l⟩ =>
      some ({ s with held := Function.update s.held l false }.goto i a (.refused 500))
    | _ => none
  | .store i =>
    match s.requests i with
    | some ⟨a, .decided l body⟩ =>
      some ((s.storeResult resultMapMax a body).goto i a (.leaving l body))
    | _ => none
  | .release i =>
    match s.requests i with
    | some ⟨a, .leaving l body⟩ =>
      some ({ s with held := Function.update s.held l false }.goto i a (.answered body))
    | _ => none

/-- Every action was executed at most once, and all 200 answers for one action agree. -/
def Idempotent (s : State) : Prop :=
  (∀ a, s.executions.count a ≤ 1) ∧
  ∀ i j a b b', s.requests i = some ⟨a, .answered b⟩ → s.requests j = some ⟨a, .answered b'⟩ → b = b'

end Agent

end Embassy
