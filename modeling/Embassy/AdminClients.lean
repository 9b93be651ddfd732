import Embassy.KeycloakClient

/-!
# The other clients (`admin/openbao_client.py`, `tier3_client.py`, `tier1_client.py`, `agent_client.py`)

One request each. What a response decodes to is looked into only as far as the functions do.
-/

namespace Embassy
open Lib

namespace Admin

section
variable (text : PyExc → List UInt8) (loads : List UInt8 → Except PyExc Json)

/-! ### OpenBao -/

def configured (services : Services) : Bool := services.openbaoAddr ≠ "" ∧ services.openbaoToken ≠ ""

def writeClientSecret (services : Services) (clientId : String) (secret keycloakUuid : Json) : Program Unit :=
  if !configured services then .done (.ok .skip)
  else if !secret.truthy then .done (.ok (.failed "refusing to write an empty/missing secret to OpenBao"))
  else
    single text (.writeSecret clientId secret keycloakUuid) [200, 204]
      (fun status => s!"OpenBao returned HTTP {status} writing the secret") (fun _ => none) fun _ => .ok (.done ())

/-- What `read_client_secret` makes of a decoded 200. -/
def storedSecret : Json → Except PyExc (Result Json)
  | .obj members => do
    let data ← objectOr (Json.get? members "data")
    let inner ← objectOr (Json.get? data "data")
    match (Json.get? inner "client_secret").getD .null with
    | .null => return .failed "OpenBao's response had no client_secret field"
    | secret => return .done secret
  | _ => .error .other

def readClientSecret (services : Services) (clientId : String) : Program Json :=
  if !configured services then .done (.ok .skip)
  else
    single text (.readSecret clientId) [200] (fun status => s!"OpenBao returned HTTP {status} reading the secret")
      (fun status => if status = 404 then some .missing else none) fun body =>
      decoded loads body "OpenBao returned an unparseable secret" storedSecret

def deleteClientSecret (services : Services) (clientId : String) : Program Unit :=
  if !configured services then .done (.ok .skip)
  else
    single text (.eraseSecret clientId) [200, 204, 404]
      (fun status => s!"OpenBao returned HTTP {status} deleting the secret") (fun _ => none) fun _ => .ok (.done ())

/-! ### Tier 3 -/

/-- `_parse_grant`, of the answer to one of the requests below. -/
def parseGrant (q : Request) (verb : String) (other : ℕ → Option (Result Json)) : Program Json :=
  single text q [200] (fun status => s!"verify returned HTTP {status} {verb} the Tier 3 grant") other fun body =>
    decoded loads body "verify returned an unparseable Tier 3 grant" fun values => .ok (.done values)

def getGrant (clientId : String) : Program Json :=
  parseGrant text loads (.getGrant clientId) "fetching" fun _ => none

def setGrant (clientId : String) (weeklyLimitCents : ℤ) : Program Json :=
  parseGrant text loads (.setGrant clientId weeklyLimitCents) "setting" fun status =>
    if status = 422 then some (.failed "the weekly limit is out of the allowed range") else none

def revokeGrant (clientId : String) : Program Json :=
  parseGrant text loads (.revokeGrant clientId) "revoking" fun _ => none

/-- `parsed.get("entries", [])` -/
def entriesOf : Json → Except PyExc (Result Json)
  | .obj members => .ok (.done ((Json.get? members "entries").getD (.arr [])))
  | _ => .error .other

def listAudit : Program Json :=
  single text .audit [200] (fun status => s!"verify returned HTTP {status} fetching the Tier 3 audit log")
    (fun _ => none) fun body => decoded loads body "verify returned an unparseable Tier 3 audit log" entriesOf

def listPending : Program Json :=
  single text .approvals [200] (fun status => s!"verify returned HTTP {status} fetching pending approvals")
    (fun _ => none) fun body => decoded loads body "verify returned an unparseable pending-approvals list" entriesOf

/-- The 502 of `_approval_action`: verify's own detail, if it has one. -/
def executionError (body : List UInt8) : Except PyExc (Result Json) :=
  let unexplained : Json := .str "the internal agent could not execute the action"
  match loads body with
  | .ok (.obj members) => .ok ⟨false, none, false, false, some (Json.orElse (Json.get? members "detail") unexplained)⟩
  | .error .jsonDecodeError => .ok ⟨false, none, false, false, some unexplained⟩
  | .ok _ => .error .other
  | .error e => .error e

/-- The statuses that `_approval_action` has texts for. -/
def approvalRefusal (verb : String) (status : ℕ) : String :=
  if status = 404 then "that action is no longer pending (expired, or already decided)"
  else if status = 409 then
    "this client's mandate was revoked while the action was pending -- not executed"
  else if status = 503 then
    "the internal agent is unavailable -- the action was NOT executed and the budget was " ++
      "not consumed. The request is resolved as failed (no longer pending); the partner can resubmit"
  else s!"verify returned HTTP {status} on {verb}"

def approvalAction (actionId verb : String) : Program Json :=
  .ask (.decide actionId verb) fun a => .done do
    let (status, body) ← exchange text (.decide actionId verb, a)
    if status = 502 then executionError loads body
    else if status = 200 then
      decoded loads body "verify returned an unparseable approval outcome" fun outcome => .ok (.done outcome)
    else return .failed (approvalRefusal verb status)

def approveAction (actionId : String) : Program Json := approvalAction text loads actionId "approve"

def rejectAction (actionId : String) : Program Json := approvalAction text loads actionId "reject"

/-! ### Tier 1 -/

def configFields : List String :=
  ["challenge_ttl_seconds", "session_ttl_seconds", "challenge_rate_limit_max", "challenge_rate_limit_window",
    "verify_rate_limit_max", "verify_rate_limit_window"]

def getConfig : Program Json :=
  single text .getConfig [200] (fun status => s!"verify returned HTTP {status} fetching Tier 1 config")
    (fun _ => none) fun body =>
    decoded loads body "verify returned an unparseable Tier 1 config" fun values => .ok (.done values)

/-- `update_config`, called with these keyword arguments. -/
def updateConfig (fields : List (String × ℤ)) : Program Json :=
  match configFields.filter fun f => fields.lookup f = none with
  | [] =>
    single text (.putConfig (configFields.filterMap fun f => (fields.lookup f).map (Prod.mk f))) [200]
      (fun status => s!"verify returned HTTP {status} updating Tier 1 config")
      (fun status => if status = 422 then some (.failed "one or more values are out of the allowed range") else none)
      fun body => decoded loads body "verify returned an unparseable Tier 1 config" fun values => .ok (.done values)
  | missing => .done (.ok (.failed ("missing config field(s): " ++ ", ".intercalate missing)))

/-! ### The agent -/

/-- `AgentStatusResult`, of a success. -/
structure AgentStatus where
  rules : Json
  llm : Json
  decisions : Json

/-- The response, or `None` for one that could not be had; as in `exchange`, what reading an error body
raises escapes. -/
def agentExchange (o : Attempt) : Except PyExc (Option (ℕ × List UInt8)) :=
  match urlopen .get [] o with
  | .returned r =>
    match r.read with
    | .ok body => .ok (some (r.status, body))
    | .error _ => .ok none
  | .httpError r => do
    let body ← r.read
    return some (r.status, body)
  | .raised _ => .ok none

/-- What `get_status` makes of a decoded 200. -/
def statusOf : Json → Except PyExc (Result AgentStatus)
  | .obj members =>
    .ok (.done ⟨(Json.get? members "rules").getD .null, (Json.get? members "llm").getD .null,
      (Json.get? members "decisions").getD (.arr [])⟩)
  | _ => .error .other

def getStatus : Program AgentStatus :=
  .ask .agentStatus fun a => .done do
    match ← agentExchange a.attempt with
    | none => return .failed "could not reach the internal agent"
    | some (status, body) =>
      if status ≠ 200 then return .failed s!"the internal agent returned HTTP {status}"
      else decoded loads body "the internal agent returned an unparseable status" statusOf

end

end Admin

end Embassy
