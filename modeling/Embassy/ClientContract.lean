import Embassy.ClientAnswers

/-!
# The admin's clients keep their contract exactly on the answers they look into

Each of the public functions, request by request: what it makes of an answer is a report exactly if the
answer is one of the `Reported`, and a result if the answers are `Expected`.
-/

namespace Embassy
open Lib

namespace Admin

open Json (get?)

section
variable (loads : List UInt8 → Except PyExc Json)

/-- A call of one of the public functions, by the type of its value. -/
inductive Call : Type → Type
  | listClients : Call (List ClientInfo)
  | createClient (clientId name : String) : Call (ClientInfo × Json)
  | getClient (uuid : String) : Call ClientInfo
  | getSecret (uuid : String) : Call Json
  | regenerateSecret (uuid : String) : Call Json
  | deleteClient (uuid : String) : Call Json
  | setClientEnabled (uuid : String) (enabled : Bool) : Call Bool
  | writeClientSecret (clientId : String) (secret keycloakUuid : Json) : Call Unit
  | readClientSecret (clientId : String) : Call Json
  | deleteClientSecret (clientId : String) : Call Unit
  | getGrant (clientId : String) : Call Json
  | setGrant (clientId : String) (weeklyLimitCents : ℤ) : Call Json
  | revokeGrant (clientId : String) : Call Json
  | listAudit : Call Json
  | listPending : Call Json
  | approveAction (actionId : String) : Call Json
  | rejectAction (actionId : String) : Call Json
  | getConfig : Call Json
  | updateConfig (fields : List (String × ℤ)) : Call Json
  | getStatus : Call AgentStatus

variable {loads} {text : PyExc → List UInt8} {audience uuid : String} {α : Type}
  {Report : Except PyExc (Result α) → Prop} {t : List (Request × Answer)} {x : Request × Answer}
  {res : Except PyExc (Result α)} {o : Attempt} {shape : Json → Prop} {good : List ℕ} {status : ℕ} {body : List UInt8}

/-! ### What the functions make of a decoded 200 -/

theorem objectOr_eq_ok {v : Option Json} {members : List (String × Json)} :
    objectOr v = .ok members ↔ Json.orElse v (.obj []) = .obj members := by
  unfold objectOr
  rcases Json.orElse v (.obj []) <;> simp

theorem objectOr_obj (members : List (String × Json)) : objectOr (some (.obj members)) = .ok members := by
  rw [objectOr_eq_ok]
  cases members <;> rfl

end

end Admin

end Embassy
