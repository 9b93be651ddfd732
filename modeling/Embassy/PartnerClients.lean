import Mathlib

/-!
# The partner-client routes (`admin/main.py`, `admin/keycloak_client.py`, `admin/openbao_client.py`)

Create, reveal-secret, regenerate-secret and delete for one `client_id`, as their Keycloak and OpenBao
calls. Each call is one step that is answered; a call on a client that is gone is answered 404. The calls
for admin tokens are left out.
-/

namespace Embassy

namespace Partner

/-- The client in Keycloak, which makes up no empty secret. -/
structure Client where
  uuid : String
  secret : String
  secret_ne : secret ≠ ""
  deriving DecidableEq

structure Entry where
  clientSecret : String
  keycloakUuid : String
  deriving DecidableEq, Repr

structure Response where
  status : ℕ
  openbaoWarning : Bool
  deriving DecidableEq, Repr

/-- A request under way, by the call it makes next, or answered. -/
inductive Handler
  /-- `create_client`, before `get_client`. -/
  | created (uuid : String)
  /-- `create_client`, before it gets the secret. -/
  | fetched (uuid : String)
  /-- `get_secret`, before `get_client`. -/
  | revealing (uuid : String)
  /-- `get_secret`, before it gets the secret. -/
  | getting (uuid : String)
  /-- `regenerate_secret`, before `get_client`. -/
  | regenerating (uuid : String)
  /-- `regenerate_secret`, before it posts. -/
  | posting (uuid : String)
  /-- `delete_client`, before it deletes. -/
  | deleting (uuid : String)
  /-- Before `write_client_secret`, in the create route or in another. -/
  | writing (uuid secret : String) (create : Bool)
  /-- Before `delete_client_secret`. -/
  | erasing
  | answered (r : Response)
  deriving DecidableEq, Repr

structure World where
  client : Option Client
  entry : Option Entry
  handlers : ℕ → Option Handler

namespace World

def goto (i : ℕ) (h : Handler) (w : World) : World :=
  { w with handlers := Function.update w.handlers i (some h) }

/-- An answer without a word about OpenBao. -/
def answer (i status : ℕ) (w : World) : World := w.goto i (.answered ⟨status, false⟩)

/-- `get_client(uuid)` finds the client. -/
def Finds (w : World) (uuid : String) : Prop := w.client.map Client.uuid = some uuid

instance (w : World) (uuid : String) : Decidable (w.Finds uuid) :=
  inferInstanceAs (Decidable (w.client.map Client.uuid = some uuid))

end World

inductive Act
  /-- The create route's `POST`; Keycloak makes up the uuid and the secret. -/
  | create (i : ℕ) (uuid secret : String)
  /-- The reveal-secret route's `get_client`. -/
  | reveal (i : ℕ) (uuid : String)
  /-- The regenerate-secret route's `get_client`. -/
  | regenerate (i : ℕ) (uuid : String)
  /-- The `get_client` of `delete_client`. -/
  | delete (i : ℕ) (uuid : String)
  /-- The next call of a request; `secret` is what Keycloak makes up if it is asked for a new one. -/
  | call (i : ℕ) (secret : String)

/-- The first `get_client` of a route. -/
def arrive (w : World) (i : ℕ) (uuid : String) (next : Handler) : Option World :=
  match w.handlers i with
  | some _ => none
  | none => some (if w.Finds uuid then w.goto i next else w.answer i 404)

/-- The secret of the client, if it is still there. -/
def World.secretOf (w : World) (uuid : String) : Option String :=
  if w.Finds uuid then w.client.map Client.secret else none

/-- The next call of request `i`, which is at `h`. -/
def callOf (w : World) (i : ℕ) (secret : String) : Handler → Option World
  | .created uuid => some (if w.Finds uuid then w.goto i (.fetched uuid) else w.answer i 400)
  | .fetched uuid =>
    match w.secretOf uuid with
    | some current => some (w.goto i (.writing uuid current true))
    -- `write_client_secret` refuses to write no secret
    | none => some (w.goto i (.answered ⟨303, true⟩))
  | .revealing uuid => some (if w.Finds uuid then w.goto i (.getting uuid) else w.answer i 404)
  | .getting uuid =>
    match w.secretOf uuid with
    | some current => some (w.goto i (.writing uuid current false))
    | none => some (w.answer i 502)
  | .regenerating uuid => some (if w.Finds uuid then w.goto i (.posting uuid) else w.answer i 404)
  | .posting uuid =>
    if w.Finds uuid then
      if hne : secret ≠ "" then
        some ({ w with client := some ⟨uuid, secret, hne⟩ }.goto i (.writing uuid secret false))
      else none
    else some (w.answer i 502)
  | .deleting uuid =>
    -- 204 or 404, the route does not tell
    some ({ w with client := if w.Finds uuid then none else w.client }.goto i .erasing)
  | .writing uuid secret create =>
    some ({ w with entry := some ⟨secret, uuid⟩ }.answer i (if create then 303 else 200))
  | .erasing => some ({ w with entry := none }.answer i 303)
  | .answered _ => none

def step (w : World) : Act → Option World
  | .create i uuid secret =>
    match w.handlers i, w.client with
    | some _, _ => none
    -- 409
    | none, some _ => some (w.answer i 400)
    | none, none =>
      if hne : secret ≠ "" then
        some ({ w with client := some ⟨uuid, secret, hne⟩ }.goto i (.created uuid))
      else none
  | .reveal i uuid => arrive w i uuid (.revealing uuid)
  | .regenerate i uuid => arrive w i uuid (.regenerating uuid)
  | .delete i uuid => arrive w i uuid (.deleting uuid)
  | .call i secret => (w.handlers i).bind (callOf w i secret)

end Partner

end Embassy
