import Embassy.HandoffTotal
import Embassy.PyTruth
import Embassy.Tier3Orders

/-!
# Introspection, and what an order records (`verify/introspection.py`, `verify/main.py`)

`introspectAccessToken` on whatever the endpoint answers, and `createTier3Order` as one request sees it:
the answers of the shared store are any, so whatever other requests do in between is covered. The
request's own audit events are kept, with the client as the claims give it.
-/

namespace Embassy
open Lib

/-! ### `introspection.py` -/

/-- What `introspect_access_token` raises. -/
inductive IntrospectExc
  | invalidToken
  /-- An exception that `create_tier3_order` does not catch. -/
  | raised (e : PyExc)
  deriving DecidableEq, Repr

section
variable (text : PyExc → List UInt8) (loads : List UInt8 → Except PyExc Json)

/-- The `except` clauses of `_post_introspect` after `HTTPError`; `text` is `str(exc).encode()`. -/
def postIntrospectExcept : PyExc → ℕ × List UInt8
  | .urlTimeout | .urlError => (0, "could not reach keycloak".toUTF8.toList)
  | e => (0, text e)

/-- `_post_introspect`. Reading an error body happens inside the `except` clause: what it raises escapes. -/
def postIntrospect (o : Attempt) : Except PyExc (ℕ × List UInt8) :=
  match urlopen .post [] o with
  | .returned r =>
    match r.read with
    | .ok body => .ok (r.status, body)
    | .error e => .ok (postIntrospectExcept text e)
  | .httpError r => do
    let body ← r.read
    return (r.status, body)
  | .raised e => .ok (postIntrospectExcept text e)

/-- `introspect_access_token`, from the answer of `_post_introspect` on. -/
def introspectAccessToken (status : ℕ) (body : List UInt8) : Except IntrospectExc (List (String × Json)) :=
  if status ≠ 200 then .error .invalidToken
  else
    match loads body with
    | .error .jsonDecodeError => .error .invalidToken
    | .error e => .error (.raised e)
    | .ok (.obj data) =>
      match Json.get? data "active" with
      | some (.bool true) => .ok data
      | _ => .error .invalidToken
    -- no `get`
    | .ok _ => .error (.raised .other)

/-- `introspect_access_token` -/
def introspect (o : Attempt) : Except IntrospectExc (List (String × Json)) :=
  match postIntrospect text o with
  | .ok (status, body) => introspectAccessToken loads status body
  | .error e => .error (.raised e)

end

/-! ### `create_tier3_order` -/

/-- A `record_tier3_event` of the request; the client is what the claims say. -/
structure OwnEvent where
  clientId : Json
  item : String
  amountCents : ℕ
  outcome : Outcome
  reason : String
  actionId : Option String

/-- What the request reads: the grants, its new action id, the used cents and the number of queued actions of
its client, the queue's entry for its action, and what `execute_handoff` does. -/
structure OrderReads where
  grants : Dict String ℕ
  actionId : String
  used : ℕ
  pendingCount : ℕ
  pendingMaxPerClient : ℕ
  entry : Option Tier3PendingAction
  handoff : Except PyExc HandoffResult

/-- Its own audit events, and its answer or an uncaught exception. -/
structure OrderRun where
  events : List OwnEvent
  answer : Except PyExc Response

/-- `claims.get("client_id") or claims.get("azp") or "unknown"` -/
def orderClient (claims : List (String × Json)) : Json :=
  Json.orElse (Json.get? claims "client_id") (Json.orElse (Json.get? claims "azp") (.str "unknown"))

/-- `store.tier3_grants.get(client_id)`, with the client that has the grant. -/
def grantOf (grants : Dict String ℕ) : Json → Except PyExc (Option (String × ℕ))
  | .str clientId => .ok ((grants.get? clientId).map fun limit => (clientId, limit))
  | .arr _ | .obj _ => .error .typeError
  | _ => .ok none

section
variable (body : Tier3OrderRequest) (reads : OrderReads)

/-- A rejection is recorded, and answered. -/
def turnedAway (clientId : Json) (reason : String) (actionId : Option String) (status : ℕ) (detail : String) :
    OrderRun :=
  ⟨[⟨clientId, body.item, body.amountCents, .rejected, reason, actionId⟩], .ok (.error status detail)⟩

def grantedOrder (clientId : String) (limit : ℕ) : OrderRun :=
  let event (outcome : Outcome) (reason : String) : OwnEvent :=
    ⟨.str clientId, body.item, body.amountCents, outcome, reason, some reads.actionId⟩
  if reads.used + body.amountCents ≤ limit then
    ⟨[event .accepted "within mandate -- handoff in progress"],
      reads.handoff.map (settlementResponse ⟨⟨reads.actionId, clientId, body⟩, limit, reads.used, false⟩)⟩
  else if reads.pendingCount ≥ reads.pendingMaxPerClient then
    turnedAway body (.str clientId) "pending-approval queue full for this client" (some reads.actionId) 403
      "too many actions already awaiting approval for this client"
  else
    ⟨[event .queued
        s!"exceeds mandate remaining ({limit - reads.used} of {limit} cents) -- awaiting human approval"],
      match reads.entry with
      | some p => .ok (.pendingApproval reads.actionId (statusPath reads.actionId) p.expiresAt)
      | none => .error .other⟩

/-- An order whose token was confirmed. -/
def confirmedOrder (client : Json) : OrderRun :=
  match grantOf reads.grants client with
  | .error e => ⟨[], .error e⟩
  | .ok none =>
    turnedAway body client "no Tier 3 grant for this client" none 403 "no Tier 3 grant for this client"
  | .ok (some (clientId, limit)) => grantedOrder body reads clientId limit

/-- `create_tier3_order`, past the rate limiter; `introspect` is `introspect_access_token`. -/
def createTier3Order (headers : Headers)
    (introspect : String → Except IntrospectExc (List (String × Json))) : OrderRun :=
  if headers.sslClientVerify ≠ some "SUCCESS" then
    turnedAway body (.str "unknown") "client certificate not verified" none 401 "client certificate not verified"
  else
    match bearerToken headers.authorization with
    | none =>
      turnedAway body (.str "unknown") "missing bearer access token" none 401 "missing bearer access token"
    | some token =>
      match introspect token with
      | .error .invalidToken =>
        turnedAway body (.str "unknown") "token rejected by introspection (revoked, disabled, or expired)" none
          401 "invalid, expired, or revoked access token"
      | .error (.raised e) => ⟨[], .error e⟩
      | .ok claims => confirmedOrder body reads (orderClient claims)

end

/-- The claims that name the client, where they are strings. -/
def claimsOf (claims : List (String × Json)) : Claims :=
  ⟨Json.str? (Json.get? claims "client_id"), Json.str? (Json.get? claims "azp")⟩

/-- They are strings, as far as there are any. -/
def NamesClient (claims : List (String × Json)) : Prop :=
  ∀ name ∈ ["client_id", "azp"], ∀ v, Json.get? claims name = some v → ∃ s, v = .str s

section
variable {claims : List (String × Json)} {headers : Headers} {body : Tier3OrderRequest} {reads : OrderReads}
  {introspect : String → Except IntrospectExc (List (String × Json))}

theorem orElse_str {v : Option Json} (h : ∀ x, v = some x → ∃ s, x = .str s) (w : Json) :
    Json.orElse v w = ((Json.str? v).filter (· ≠ "")).elim w Json.str := by
  cases v with
  | none => rfl
  | some x =>
    obtain ⟨s, rfl⟩ := h x rfl
    by_cases hs : s = "" <;> simp [Json.orElse, Json.truthy, Json.str?, Option.filter, hs]

theorem orderClient_of_namesClient (h : NamesClient claims) :
    orderClient claims = .str (claimsOf claims).client := by
  rw [orderClient, orElse_str (h "client_id" (by simp)), orElse_str (h "azp" (by simp)), Claims.client, claimsOf]
  cases (Json.str? (Json.get? claims "client_id")).filter (· ≠ "") with
  | some c => rfl
  | none => cases (Json.str? (Json.get? claims "azp")).filter (· ≠ "") <;> rfl

/-- Where introspection gives an answer, the authentication of `step` is the one of `create_tier3_order`. -/
theorem createTier3Order_eq (hraise : ∀ token e, introspect token ≠ .error (.raised e))
    (hnames : ∀ token claims, introspect token = .ok claims → NamesClient claims) :
    createTier3Order body reads headers introspect =
      match authenticate headers fun token => (introspect token).toOption.map claimsOf with
      | .error (reason, detail) => turnedAway body (.str "unknown") reason none 401 detail
      | .ok clientId => confirmedOrder body reads (.str clientId) := by
  unfold createTier3Order authenticate
  split
  · rfl
  · cases bearerToken headers.authorization with
    | none => rfl
    | some token =>
      simp only
      cases hi : introspect token with
      | error e =>
        cases e with
        | invalidToken => rfl
        | raised e => exact absurd hi (hraise token e)
      | ok claims =>
        simp only [Except.toOption, Option.map_some]
        rw [orderClient_of_namesClient (hnames token claims hi)]

end

end Embassy
