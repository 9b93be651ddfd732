import Embassy.Handoff
import Embassy.Lib.Dialogue
import Embassy.PyTruth

/-!
# What the admin's service clients send

The clients of `admin/` are programs that send requests and are answered by the network (`Program`). A
request is named after what it asks for; its method and URL are what goes to `urllib`. `exchange` is what
`_admin_request`, `_bao_request`, `_tier3_request` and `_verify_request` make of an answer.
-/

namespace Embassy
open Lib

namespace Admin

/-- Where the services are, and OpenBao's token. -/
structure Services where
  keycloakBaseUrl : String
  keycloakRealm : String
  openbaoAddr : String
  openbaoToken : String

/-- What is asked for. `nested` tells the calls that `create_client` makes through `get_client`; a token is
what `_admin_token` gave. -/
inductive Request
  | token (nested : Bool)
  | listClients (token : Json)
  | createClient (token : Json) (clientId name : String)
  | client (nested : Bool) (token : Json) (uuid : String)
  /-- The secret of a client just created. -/
  | createdSecret (token : Json) (uuid : String)
  | secret (token : Json) (uuid : String)
  | newSecret (token : Json) (uuid : String)
  | deleteClient (token : Json) (uuid : String)
  | setEnabled (token : Json) (uuid : String) (enabled : Bool)
  | writeSecret (clientId : String) (secret keycloakUuid : Json)
  | readSecret (clientId : String)
  | eraseSecret (clientId : String)
  | getGrant (clientId : String)
  | setGrant (clientId : String) (weeklyLimitCents : ℤ)
  | revokeGrant (clientId : String)
  | audit
  | approvals
  | decide (actionId verb : String)
  | getConfig
  | putConfig (values : List (String × ℤ))
  | agentStatus

namespace Request

def clientsUrl (s : Services) : String := s!"{s.keycloakBaseUrl}/admin/realms/{s.keycloakRealm}/clients"

/-- `_ADMIN_REALM_TOKEN_URL` -/
def tokenUrl (s : Services) : String := s!"{s.keycloakBaseUrl}/realms/master/protocol/openid-connect/token"

/-- `f"{_CLIENTS_URL}/{uuid}"` -/
def clientUrl (s : Services) (uuid : String) : String := s!"{clientsUrl s}/{uuid}"

/-- `f"{_CLIENTS_URL}/{uuid}/client-secret"` -/
def secretUrl (s : Services) (uuid : String) : String := s!"{clientUrl s uuid}/client-secret"

def method : Request → Method
  | token _ | createClient .. | newSecret .. | writeSecret .. | decide .. => .post
  | setEnabled .. | setGrant .. | putConfig _ => .put
  | deleteClient .. | eraseSecret _ | revokeGrant _ => .delete
  | listClients _ | client .. | createdSecret .. | secret .. | readSecret _ | getGrant _ | audit | approvals
  | getConfig | agentStatus => .get

def keycloakUrl (s : Services) : Request → Option String
  | token _ => some (tokenUrl s)
  | listClients _ | createClient .. => some (clientsUrl s)
  | client _ _ uuid | deleteClient _ uuid | setEnabled _ uuid _ => some (clientUrl s uuid)
  | createdSecret _ uuid | secret _ uuid | newSecret _ uuid => some (secretUrl s uuid)
  | _ => none

def Is (s : Services) (q : Request) (method : Method) (url : String) : Prop :=
  q.method = method ∧ q.keycloakUrl s = some url

end Request

/-- What the network does with a request, and the headers of the last response if there is one. -/
structure Answer where
  attempt : Attempt
  headers : List (String × String)

/-- `dict(resp.headers)[name]`: the name as it was sent, but the first value of the name in any case. -/
def Answer.header? (a : Answer) (name : String) : Option String :=
  if a.headers.any fun h => h.1 = name then
    (a.headers.find? fun h => h.1.toList.map Char.toLower = name.toList.map Char.toLower).map Prod.snd
  else none

/-- A result dataclass: its own fields are `value`, and `False` or `None` unless they are set. -/
structure Result (α : Type) where
  ok : Bool
  value : Option α
  notFound : Bool
  skipped : Bool
  /-- A text, or what a response had in its place. -/
  error : Option Json

namespace Result
variable {α : Type}

def done (value : α) : Result α := ⟨true, some value, false, false, none⟩

def missing : Result α := ⟨true, none, true, false, none⟩

def skip : Result α := ⟨true, none, false, true, none⟩

def failed (error : String) : Result α := ⟨false, none, false, false, some (.str error)⟩

end Result

/-- What comes of the last request, if the response to the first redirects. -/
def outcome (x : Request × Answer) : Attempt := x.2.attempt.final x.1.method []

/-- A client function: what it sends, and the result or the exception it ends with. -/
abbrev Program (α : Type) : Type := Dialogue Request Answer (Except PyExc (Result α))

section
variable (text : PyExc → List UInt8) (loads : List UInt8 → Except PyExc Json) {α : Type}

/-- `_admin_request`, `_bao_request`, `_tier3_request`, `_verify_request`: the status and the body, or
status 0 and the text of the exception. Reading an error body happens inside the `except` clause: what it
raises escapes. -/
def exchange (x : Request × Answer) : Except PyExc (ℕ × List UInt8) :=
  match urlopen x.1.method [] x.2.attempt with
  | .returned r =>
    match r.read with
    | .ok body => .ok (r.status, body)
    | .error e => .ok (0, text e)
  | .httpError r => do
    let body ← r.read
    return (r.status, body)
  | .raised e => .ok (0, text e)

/-- `json.loads(body)`, where `JSONDecodeError` is caught and reported as `unparseable`. -/
def decoded (body : List UInt8) (unparseable : String) (k : Json → Except PyExc (Result α)) :
    Except PyExc (Result α) :=
  match loads body with
  | .error .jsonDecodeError => .ok (.failed unparseable)
  | .error e => .error e
  | .ok v => k v

/-- What is made of an answer: the statuses in `other` have results of their own, of the rest only `good`
goes on. -/
def answered (good : List ℕ) (refused : ℕ → String) (other : ℕ → Option (Result α))
    (k : List UInt8 → Except PyExc (Result α)) (x : Request × Answer) : Except PyExc (Result α) := do
  let (status, body) ← exchange text x
  match other status with
  | some r => return r
  | none => if status ∈ good then k body else return .failed (refused status)

def single (q : Request) (good : List ℕ) (refused : ℕ → String) (other : ℕ → Option (Result α))
    (k : List UInt8 → Except PyExc (Result α)) : Program α :=
  .ask q fun a => .done (answered text good refused other k (q, a))

end

end Admin

end Embassy
