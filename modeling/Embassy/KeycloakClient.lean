import Embassy.HandoffTotal
import Embassy.ServiceCalls

/-!
# The Keycloak client (`admin/keycloak_client.py`)

`_is_partner_client` and `_to_client_info` on whatever the response decodes to, and the seven public
functions as programs.
-/

namespace Embassy
open Lib

namespace Admin

/-! ### Representations -/

/-- `ClientInfo` -/
structure ClientInfo where
  uuid : Json
  clientId : Json
  name : Json
  enabled : Bool
  hasAudienceMapper : Bool

def builtinClientIds : List String :=
  ["account", "account-console", "admin-cli", "broker", "realm-management", "security-admin-console",
    "agent-embassy-tier2"]

/-- `rep.get(name) is b` -/
def isFlag (rep : List (String × Json)) (name : String) (b : Bool) : Bool :=
  match Json.get? rep name with
  | some (.bool b') => b = b'
  | _ => false

/-- `_is_partner_client`; what is not an object has no `get`. -/
def isPartnerClient : Json → Except PyExc Bool
  | .obj rep => do
    if ← Json.inSet builtinClientIds (Json.get? rep "clientId") then return false
    else
      return isFlag rep "publicClient" false && isFlag rep "serviceAccountsEnabled" true &&
        isFlag rep "standardFlowEnabled" false && isFlag rep "implicitFlowEnabled" false &&
        isFlag rep "directAccessGrantsEnabled" false
  | _ => .error .other

/-- `v or {}`, of which names are then looked up. -/
def objectOr (v : Option Json) : Except PyExc (List (String × Json)) :=
  match Json.orElse v (.obj []) with
  | .obj members => .ok members
  | _ => .error .other

/-- The loop of `_has_audience_mapper`. -/
def anyAudienceMapper (audience : String) : List Json → Except PyExc Bool
  | [] => .ok false
  | .obj mapper :: mappers =>
    if Json.str? (Json.get? mapper "protocolMapper") ≠ some "oidc-audience-mapper" then
      anyAudienceMapper audience mappers
    else do
      let config ← objectOr (Json.get? mapper "config")
      if Json.str? (Json.get? config "included.custom.audience") = some audience ∧
          Json.str? (Json.get? config "access.token.claim") = some "true" then
        return true
      else anyAudienceMapper audience mappers
  | _ :: _ => .error .other

/-- `_has_audience_mapper`; the keys of an object and the characters of a text have no `get`. -/
def hasAudienceMapper (audience : String) (rep : List (String × Json)) : Except PyExc Bool :=
  match Json.orElse (Json.get? rep "protocolMappers") (.arr []) with
  | .arr mappers => anyAudienceMapper audience mappers
  | .obj _ | .str _ => .error .other
  | _ => .error .typeError

/-- `rep[name]` -/
def field (rep : List (String × Json)) (name : String) : Except PyExc Json :=
  match Json.get? rep name with
  | some v => .ok v
  | none => .error .other

def toClientInfo (audience : String) (rep : List (String × Json)) : Except PyExc ClientInfo := do
  let uuid ← field rep "id"
  let clientId ← field rep "clientId"
  let hasMapper ← hasAudienceMapper audience rep
  return ⟨uuid, clientId, Json.orElse (Json.get? rep "name") clientId,
    ((Json.get? rep "enabled").getD .null).truthy, hasMapper⟩

/-- The comprehension of `list_clients`. -/
def partnerInfos (audience : String) : List Json → Except PyExc (List ClientInfo)
  | [] => .ok []
  | rep :: reps => do
    let partner ← isPartnerClient rep
    match rep with
    | .obj members =>
      if partner then
        let info ← toClientInfo audience members
        let infos ← partnerInfos audience reps
        return info :: infos
      else partnerInfos audience reps
    | _ => partnerInfos audience reps

/-- The loop of `list_clients` over what is not an array: keys and characters have no `get`. -/
def clientInfos (audience : String) : Json → Except PyExc (List ClientInfo)
  | .arr reps => partnerInfos audience reps
  | .obj [] => .ok []
  | .str s => if s = "" then .ok [] else .error .other
  | .obj _ => .error .other
  | _ => .error .typeError

/-! ### The functions -/

section
variable (text : PyExc → List UInt8) (loads : List UInt8 → Except PyExc Json) (audience : String)

/-- `body["access_token"], ""`, where `None` is no token. -/
def accessToken : Json → Option Json × String
  | .obj members =>
    match Json.get? members "access_token" with
    | some .null => (none, "")
    | some token => (some token, "")
    | none => (none, "could not authenticate to Keycloak admin API")
  | _ => (none, "could not authenticate to Keycloak admin API")

/-- `_admin_token`: the token, if it is not `None`, and the error. The body of an error response is not
read. -/
def adminToken (o : Attempt) : Option Json × String :=
  match urlopen .post [] o with
  | .returned r =>
    match r.read with
    | .ok body =>
      match loads body with
      | .ok parsed => accessToken parsed
      | .error _ => (none, "could not authenticate to Keycloak admin API")
    | .error .urlError | .error .urlTimeout => (none, "could not reach Keycloak")
    | .error _ => (none, "could not authenticate to Keycloak admin API")
  | .httpError r => (none, s!"could not authenticate to Keycloak admin API (HTTP {r.status})")
  | .raised .urlError | .raised .urlTimeout => (none, "could not reach Keycloak")
  | .raised _ => (none, "could not authenticate to Keycloak admin API")

/-- The first request of every function. -/
def withToken {α : Type} (nested : Bool) (k : Json → Program α) : Program α :=
  .ask (.token nested) fun a =>
    match adminToken loads a.attempt with
    | (some token, _) => k token
    | (none, err) => .done (.ok (.failed err))

/-- `list_clients`; its failures have an empty list of clients. -/
def listClients : Program (List ClientInfo) :=
  withToken loads false fun token =>
    single text (.listClients token) [200] (fun status => s!"Keycloak returned HTTP {status} listing clients")
      (fun _ => none) fun body =>
      decoded loads body "Keycloak returned an unparseable client list" fun reps => do
        let clients ← clientInfos audience reps
        return .done clients

/-- What `get_client` makes of a decoded 200. -/
def clientDetail (rep : Json) : Except PyExc (Result ClientInfo) := do
  if ← isPartnerClient rep then
    match rep with
    | .obj members => return .done (← toClientInfo audience members)
    | _ => return .missing
  else return .missing

def getClient (nested : Bool) (uuid : String) : Program ClientInfo :=
  withToken loads nested fun token =>
    single text (.client nested token uuid) [200]
      (fun status => s!"Keycloak returned HTTP {status} fetching the client")
      (fun status => if status = 404 then some .missing else none) fun body =>
      decoded loads body "Keycloak returned an unparseable client" (clientDetail audience)

/-- The beginning that `get_secret`, `regenerate_secret`, `delete_client` and `set_client_enabled` share;
`act` goes on with the client that was checked and a new token. -/
def onPartner {α : Type} (uuid : String) (act : Option ClientInfo → Json → Program α) : Program α :=
  (getClient text loads audience false uuid).bind fun detail =>
    match detail with
    | .error e => .done (.error e)
    | .ok detail =>
      if detail.notFound then .done (.ok .missing)
      else if !detail.ok then .done (.ok ⟨false, none, false, false, detail.error⟩)
      else withToken loads false (act detail.value)

/-- `SecretResult(ok=True, secret=parsed.get("value"))` -/
def secretValue : Json → Except PyExc (Result Json)
  | .obj members => .ok (.done ((Json.get? members "value").getD .null))
  | _ => .error .other

def getSecret (uuid : String) : Program Json :=
  onPartner text loads audience uuid fun _ token =>
    single text (.secret token uuid) [200] (fun status => s!"Keycloak returned HTTP {status} fetching the secret")
      (fun _ => none) fun body => decoded loads body "Keycloak returned an unparseable secret" secretValue

def regenerateSecret (uuid : String) : Program Json :=
  onPartner text loads audience uuid fun _ token =>
    single text (.newSecret token uuid) [200]
      (fun status => s!"Keycloak returned HTTP {status} regenerating the secret")
      (fun _ => none) fun body => decoded loads body "Keycloak returned an unparseable secret" secretValue

/-- `detail.client.client_id` -/
def detailClientId : Option ClientInfo → Except PyExc Json
  | some client => .ok client.clientId
  | none => .error .other

/-- `delete_client`; its value is the client id. -/
def deleteClient (uuid : String) : Program Json :=
  onPartner text loads audience uuid fun client token =>
    single text (.deleteClient token uuid) [204, 404]
      (fun status => s!"Keycloak returned HTTP {status} deleting the client") (fun _ => none) fun _ => do
        let clientId ← detailClientId client
        return .done clientId

def setClientEnabled (uuid : String) (enabled : Bool) : Program Bool :=
  onPartner text loads audience uuid fun _ token =>
    single text (.setEnabled token uuid enabled) [204]
      (fun status => s!"Keycloak returned HTTP {status} updating the client") (fun _ => none)
      fun _ => .ok (.done enabled)

/-- `location.rstrip("/").rsplit("/", 1)[-1]` -/
def lastSegment (location : String) : String :=
  String.ofList ((location.toList.reverse.dropWhile (· = '/')).takeWhile (· ≠ '/')).reverse

/-- `headers.get("Location") or headers.get("location") or ""` -/
def locationOf (a : Answer) : String :=
  match (a.header? "Location").filter (· ≠ ""), a.header? "location" with
  | some location, _ => location
  | none, some location => location
  | none, none => ""

/-- The secret that `create_client` fetches: none unless a 200 with an object has one. -/
def createdSecret (x : Request × Answer) : Except PyExc Json := do
  let (status, body) ← exchange text x
  if status = 200 then
    match loads body with
    | .ok (.obj members) => return (Json.get? members "value").getD .null
    | .ok _ => .error .other
    | .error .jsonDecodeError => return .null
    | .error e => .error e
  else return .null

/-- `create_client`, after its `POST` was answered 201 with this uuid. -/
def afterCreated (token : Json) (uuid : String) : Program (ClientInfo × Json) :=
  (getClient text loads audience true uuid).bind fun detail =>
    match detail with
    | .error e => .done (.error e)
    | .ok detail =>
      match detail.ok, detail.value with
      | true, some client =>
        .ask (.createdSecret token uuid) fun a => .done do
          let secret ← createdSecret text loads (.createdSecret token uuid, a)
          return .done (client, secret)
      | _, _ => .done (.ok (.failed "client was created but could not be re-fetched"))

/-- `create_client`; `repr` is Python's, of a text. -/
def createClient (repr : String → String) (clientId name : String) : Program (ClientInfo × Json) :=
  withToken loads false fun token =>
    let q : Request := .createClient token clientId (if name = "" then clientId else name)
    .ask q fun a =>
      match exchange text (q, a) with
      | .error e => .done (.error e)
      | .ok (status, _) =>
        if status = 409 then .done (.ok (.failed s!"a client named {repr clientId} already exists"))
        else if status ≠ 201 then .done (.ok (.failed s!"Keycloak returned HTTP {status} creating the client"))
        else
          let uuid := lastSegment (locationOf a)
          if uuid = "" then .done (.ok (.failed "client was created but Keycloak did not return its id"))
          else afterCreated text loads audience token uuid

end

end Admin

end Embassy
