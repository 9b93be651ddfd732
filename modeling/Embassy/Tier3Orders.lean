import Embassy.PyString
import Embassy.Tier3Calls
import Embassy.Lib.Runs

/-!
# The Tier 3 endpoints (`verify/main.py`) as one transition system

A `World` is the store, the requests in flight and the calls made so far. `step` lets any request do
its next piece: a block under `tier3_lock` is one piece, a call of a `Store` method outside the lock
is one piece, so other requests fall in between (what falls into `record_tier3_event` outside the lock is
cut in `ConcurrentAudit`). The environment chooses what the headers,
Keycloak's introspection, the rate limiter and the handoff say, and every action id
(`secrets.token_hex` gives a fresh one). The clock never runs backwards; every `time.time()` takes
the next reading.
-/

namespace Embassy
open Lib

/-- The settings and the clock of one run. -/
structure Env extends Tier3Config where
  clock : ℕ → ℤ
  clock_mono : Monotone clock

inductive Response
  /-- `HTTPException` -/
  | error (status : ℕ) (detail : String)
  /-- An uncaught exception. -/
  | internalServerError
  /-- The body of an executed order. -/
  | order (o : Order) (orderNumber channel statusPath : String) (remainingCents : ℤ)
  /-- The 202 body of a queued order. -/
  | pendingApproval (actionId statusPath : String) (expiresAt : ℤ)
  | rejected (actionId : String)
  | resolution (r : Tier3Resolution)
  deriving DecidableEq, Repr

def statusPath (actionId : String) : String := s!"/tier3/orders/{actionId}"

/-- A reservation on its way through `execute_handoff` and `_settle_handoff`. -/
structure Handoff where
  order : Order
  limit : ℕ
  used : ℕ
  approvedByHuman : Bool
  deriving DecidableEq, Repr

/-- What `_settle_handoff` answers. -/
def settlementResponse (h : Handoff) : HandoffResult → Response
  | .executed channel _ reference =>
    .order h.order reference channel (statusPath h.order.actionId)
      ((h.limit : ℤ) - h.used - h.order.body.amountCents)
  | .failed .. => .error 502
    "the internal agent could not execute this action; the mandate budget was not consumed"
  | .down => .error 503
    "the internal agent is unavailable; the action was not executed and the mandate budget was not consumed"
  | .unknown => .error 502
    ("the handoff to the internal agent did not complete: the action MAY have executed. " ++
      "Do not resubmit -- the mandate budget has been consumed pending reconciliation; " ++
      s!"poll {statusPath h.order.actionId}")

/-- Where a request stands. -/
inductive Handler
  /-- An order whose token was confirmed. -/
  | authenticated (clientId : String) (body : Tier3OrderRequest)
  /-- The unlocked read of the grant gave `limit`; the action id is made up. -/
  | limitRead (o : Order) (limit : ℕ)
  /-- About to record a rejection outside the lock, and to answer it. -/
  | turningAway (clientId : String) (body : Tier3OrderRequest) (actionId : Option String)
      (reason : String) (status : ℕ) (detail : String)
  /-- Queued for approval; about to answer 202. -/
  | queued (o : Order)
  /-- The budget is reserved; about to hand off. -/
  | reserved (h : Handoff)
  /-- Inside `execute_handoff`. -/
  | executing (h : Handoff)
  /-- The reservation is settled; about to resolve. -/
  | settled (h : Handoff) (result : HandoffResult)
  /-- A poll past its prune. -/
  | polling (clientId actionId : String)
  | answered (r : Response)
  deriving DecidableEq, Repr

/-- The store, the number of clock readings taken, the requests, and the calls so far. -/
structure World where
  store : Tier3Store
  reads : ℕ
  handlers : ℕ → Option Handler
  trace : List Call

def World.init : World := ⟨.init, 0, fun _ => none, []⟩

/-- The headers the Tier 3 endpoints read. -/
structure Headers where
  sslClientVerify : Option String
  authorization : Option String
  deriving DecidableEq, Repr

/-- The claims of an introspected token that name its client. -/
structure Claims where
  clientId : Option String
  azp : Option String
  deriving DecidableEq, Repr

/-- `claims.get("client_id") or claims.get("azp") or "unknown"`; the empty string is falsy. -/
def Claims.client (c : Claims) : String :=
  match c.clientId.filter (· ≠ ""), c.azp.filter (· ≠ "") with
  | some client, _ => client
  | none, some azp => azp
  | none, none => "unknown"

/-- The authentication both endpoints do: the client, or the audit reason and the answer. `introspect`
is `introspect_access_token`, `none` where it raises `InvalidToken`. -/
def authenticate (headers : Headers) (introspect : String → Option Claims) :
    Except (String × String) String :=
  if headers.sslClientVerify ≠ some "SUCCESS" then
    .error ("client certificate not verified", "client certificate not verified")
  else
    match bearerToken headers.authorization with
    | none => .error ("missing bearer access token", "missing bearer access token")
    | some token =>
      match introspect token with
      | none => .error ("token rejected by introspection (revoked, disabled, or expired)",
          "invalid, expired, or revoked access token")
      | some claims => .ok claims.client

namespace World
variable (env : Env)

/-- The reading the next `time.time()` takes. -/
def now (w : World) : ℤ := env.clock w.reads

def tick (w : World) : World := { w with reads := w.reads + 1 }

def call (c : Call) (w : World) : World :=
  { w with store := c.apply env.toTier3Config w.store, trace := w.trace ++ [c] }

def goto (i : ℕ) (h : Handler) (w : World) : World :=
  { w with handlers := Function.update w.handlers i (some h) }

def Fresh (w : World) (actionId : String) : Prop := ∀ c ∈ w.trace, c.about ≠ some actionId

instance (w : World) (actionId : String) : Decidable (w.Fresh actionId) :=
  inferInstanceAs (Decidable (∀ c ∈ w.trace, c.about ≠ some actionId))

/-- `tier3_used_cents` -/
def usedCents (w : World) (clientId : String) : ℕ :=
  tier3UsedCents env.toTier3Config w.store.tier3Events clientId (w.now env)

def recordTier3Event (clientId item : String) (amountCents : ℕ) (outcome : Outcome) (reason : String)
    (actionId : Option String) (w : World) : World :=
  w.tick.call env
    (.recorded ⟨w.now env, clientId, item, amountCents, outcome, reason, none, actionId⟩)

/-- The `record_tier3_event` that makes a reservation. -/
def reserve (o : Order) (approvedByHuman : Bool) (reason : String) (w : World) : World :=
  w.tick.call env (.reserved approvedByHuman (o.event (w.now env) .accepted reason))

def queueTier3Action (o : Order) (w : World) : World :=
  w.tick.call env (.queued (queuedAction env.toTier3Config (w.now env) o.actionId o.clientId o.body))

def setTier3Resolution (actionId clientId : String) (status : ResolutionStatus) (detail : String)
    (channel orderNumber : Option String) (w : World) : World :=
  w.tick.call env (.resolved (w.store.tier3Resolutions.get? actionId).isNone
    (newResolution (w.now env) actionId clientId status detail channel orderNumber))

/-- Pop an entry of the queue, audit it and resolve it: what expiry, revocation, rejection and a
refused approval do with their own outcome and texts. -/
def close (exit : Exit) (now : ℤ) (outcome : Outcome) (reason : String) (status : ResolutionStatus)
    (detail : String) (w : World) (action : Tier3PendingAction) : World :=
  w.call env (.popped exit now action)
    |>.recordTier3Event env action.clientId action.item action.amountCents outcome reason
      (some action.actionId)
    |>.setTier3Resolution env action.actionId action.clientId status detail none none

def expire (now : ℤ) : World → Tier3PendingAction → World :=
  close env .expire now .expired "pending approval expired before a human decided" .expired
    "pending approval expired before a human decided"

def revoke (now : ℤ) : World → Tier3PendingAction → World :=
  close env .revoke now .rejected "mandate revoked -- pending approval cancelled" .rejected
    "mandate revoked -- pending approval cancelled"

def refuseApproval (now : ℤ) : World → Tier3PendingAction → World :=
  close env .approve now .rejected "approval refused: mandate revoked while pending" .rejected
    "mandate revoked while pending approval"

def rejectByHuman (now : ℤ) : World → Tier3PendingAction → World :=
  close env .reject now .rejected "rejected by human" .rejected "rejected by human"

/-- The entries `prune_tier3_pending` takes out. -/
def overdue (now : ℤ) (w : World) : List Tier3PendingAction :=
  w.store.tier3Pending.values.filter fun a => now > a.expiresAt

def pruneTier3Pending (w : World) : World :=
  (w.overdue (w.now env)).foldl (expire env (w.now env)) w.tick

/-- The queue entries of one client. -/
def pendingOf (clientId : String) (w : World) : List Tier3PendingAction :=
  w.store.tier3Pending.values.filter fun a => a.clientId = clientId

/-! ### The locked blocks -/

/-- The locked block of `create_tier3_order`, with the limit read before it. -/
def reserveOrQueue (o : Order) (limit : ℕ) (w : World) : World × Handler :=
  let used := w.usedCents env o.clientId
  let w := w.tick
  if used + o.body.amountCents ≤ limit then
    (w.reserve env o false "within mandate -- handoff in progress", .reserved ⟨o, limit, used, false⟩)
  else
    let remaining := limit - used
    let w := w.pruneTier3Pending env
    if (w.pendingOf o.clientId).length ≥ env.pendingMaxPerClient then
      (w, .turningAway o.clientId o.body (some o.actionId) "pending-approval queue full for this client"
        403 "too many actions already awaiting approval for this client")
    else
      let w := w.queueTier3Action env o
      let w := w.recordTier3Event env o.clientId o.body.item o.body.amountCents .queued
        s!"exceeds mandate remaining ({remaining} of {limit} cents) -- awaiting human approval"
        (some o.actionId)
      let w := w.setTier3Resolution env o.actionId o.clientId .queued "awaiting human approval" none none
      (w, .queued o)

/-- The locked block of `approve_tier3_action`. -/
def approveTier3Action (actionId : String) (w : World) : World × Handler :=
  let now := w.now env
  let w := w.pruneTier3Pending env
  match w.store.tier3Pending.get? actionId with
  | none => (w, .answered (.error 404 "unknown, expired, or already resolved action"))
  | some action =>
    match w.store.tier3Grants.get? action.clientId with
    | none =>
      (w.refuseApproval env now action,
        .answered (.error 409 "this client's mandate was revoked while the action was pending"))
    | some limit =>
      let w := w.call env (.popped .approve now action)
      let used := w.usedCents env action.clientId
      let w := w.tick
      (w.reserve env action.order true "approved by human -- handoff in progress",
        .reserved ⟨action.order, limit, used, true⟩)

/-- The locked block of `reject_tier3_action`. -/
def rejectTier3Action (actionId : String) (w : World) : World × Handler :=
  let now := w.now env
  let w := w.pruneTier3Pending env
  match w.store.tier3Pending.get? actionId with
  | none => (w, .answered (.error 404 "unknown, expired, or already resolved action"))
  | some action => (w.rejectByHuman env now action, .answered (.rejected actionId))

/-- The locked block of `delete_tier3_grant`. -/
def deleteTier3Grant (clientId : String) (w : World) : World :=
  let w := w.call env (.ungranted clientId)
  let now := w.now env
  let w := w.pruneTier3Pending env
  (w.pendingOf clientId).foldl (revoke env now) w

end World

inductive Act
  /-- `POST /tier3/orders` arrives and is authenticated. -/
  | order (i : ℕ) (limited : Bool) (headers : Headers) (introspect : String → Option Claims)
      (body : Tier3OrderRequest)
  /-- Its unlocked read of `tier3_grants`, and its action id. -/
  | readLimit (i : ℕ) (actionId : String)
  /-- Its locked block. -/
  | reserve (i : ℕ)
  /-- Its unlocked rejection. -/
  | turnAway (i : ℕ)
  /-- Its 202 answer. -/
  | answerQueued (i : ℕ)
  /-- `execute_handoff` is called. -/
  | handOff (i : ℕ)
  /-- It returned or raised. -/
  | settle (i : ℕ) (result : Except PyExc HandoffResult)
  /-- The rest of `_settle_handoff`. -/
  | resolve (i : ℕ)
  | approve (i : ℕ) (actionId : String)
  | reject (i : ℕ) (actionId : String)
  | putGrant (clientId : String) (limit : ℕ)
  | deleteGrant (clientId : String)
  | listApprovals
  /-- `GET /tier3/orders/{action_id}` arrives, is authenticated and prunes. -/
  | poll (i : ℕ) (limited : Bool) (headers : Headers) (introspect : String → Option Claims)
      (actionId : String)
  /-- Its read of the resolution. -/
  | pollRead (i : ℕ)

open World in
def step (env : Env) (w : World) : Act → Option World
  | .order i limited headers introspect body =>
    match w.handlers i with
    | some _ => none
    | none =>
      if limited then
        some (w.goto i (.answered (.error 429 "too many Tier 3 order requests, slow down")))
      else
        match authenticate headers introspect with
        -- whose token it was is not known
        | .error (reason, detail) =>
          some ((w.recordTier3Event env "unknown" body.item body.amountCents .rejected reason none).goto i
            (.answered (.error 401 detail)))
        | .ok clientId => some (w.goto i (.authenticated clientId body))
  | .readLimit i actionId =>
    match w.handlers i with
    | some (.authenticated clientId body) =>
      match w.store.tier3Grants.get? clientId with
      | none =>
        some (w.goto i (.turningAway clientId body none "no Tier 3 grant for this client" 403
          "no Tier 3 grant for this client"))
      | some limit =>
        if w.Fresh actionId then
          some ((w.call env (.minted ⟨actionId, clientId, body⟩)).goto i
            (.limitRead ⟨actionId, clientId, body⟩ limit))
        else none
    | _ => none
  | .reserve i =>
    match w.handlers i with
    | some (.limitRead o limit) => let (w, h) := w.reserveOrQueue env o limit; some (w.goto i h)
    | _ => none
  | .turnAway i =>
    match w.handlers i with
    | some (.turningAway clientId body actionId reason status detail) =>
      some ((w.recordTier3Event env clientId body.item body.amountCents .rejected reason actionId).goto i
        (.answered (.error status detail)))
    | _ => none
  | .answerQueued i =>
    match w.handlers i with
    | some (.queued o) =>
      match w.store.tier3Pending.get? o.actionId with
      | some p =>
        some (w.goto i (.answered (.pendingApproval o.actionId (statusPath o.actionId) p.expiresAt)))
      -- `store.tier3_pending[action_id]` raises `KeyError`
      | none => some (w.goto i (.answered .internalServerError))
    | _ => none
  | .handOff i =>
    match w.handlers i with
    | some (.reserved h) => some ((w.call env (.handedOff h.order.actionId)).goto i (.executing h))
    | _ => none
  | .settle i result =>
    match w.handlers i, result with
    | some (.executing h), .ok result =>
      some ((w.call env (.settled h.order.actionId h.approvedByHuman result)).goto i (.settled h result))
    | some (.executing _), .error _ => some (w.goto i (.answered .internalServerError))
    | _, _ => none
  | .resolve i =>
    match w.handlers i with
    | some (.settled h result) =>
      let s := settlement h.approvedByHuman result
      some ((w.setTier3Resolution env h.order.actionId h.order.clientId s.status s.detail s.channel
        s.orderNumber).goto i (.answered (settlementResponse h result)))
    | _ => none
  | .approve i actionId =>
    match w.handlers i with
    | none => let (w, h) := w.approveTier3Action env actionId; some (w.goto i h)
    | some _ => none
  | .reject i actionId =>
    match w.handlers i with
    | none => let (w, h) := w.rejectTier3Action env actionId; some (w.goto i h)
    | some _ => none
  | .putGrant clientId limit => some (w.call env (.granted clientId limit))
  | .deleteGrant clientId => some (w.deleteTier3Grant env clientId)
  | .listApprovals => some (w.pruneTier3Pending env)
  | .poll i limited headers introspect actionId =>
    match w.handlers i with
    | some _ => none
    | none =>
      if limited then
        some (w.goto i (.answered (.error 429 "too many status requests, slow down")))
      else
        match authenticate headers introspect with
        | .error (_, detail) => some (w.goto i (.answered (.error 401 detail)))
        | .ok clientId => some ((w.pruneTier3Pending env).goto i (.polling clientId actionId))
  | .pollRead i =>
    match w.handlers i with
    | some (.polling clientId actionId) =>
      let found := (Embassy.getTier3Resolution env.toTier3Config (w.now env) w.store.tier3Resolutions
        actionId).1
      let w := w.tick.call env (.looked (w.now env) actionId)
      match found with
      | some r =>
        if r.clientId = clientId then some (w.goto i (.answered (.resolution r)))
        else some (w.goto i (.answered (.error 404 "unknown action id")))
      | none => some (w.goto i (.answered (.error 404 "unknown action id")))
    | _ => none

end Embassy
