import Embassy.AgentSchema
import Embassy.Lib.Regex
import Embassy.PyJson
import Embassy.PyString
import Embassy.Tier3Store

/-!
# An order on its way through the three services

The client id the admin UI accepts, verify's `_handoff_envelope`, the agent's models and
`channels.execute`, and the models of the stubs. A model's `ofJson` is `none` where pydantic refuses; its
coercions of numeric strings and whole floats are left out, since only integers are ever sent.
-/

namespace Embassy
open Lib

namespace Json

/-- `str = Field(min_length=lo, max_length=hi)` -/
def strField (lo hi : ℕ) : Option Json → Option {s : String // lo ≤ s.length ∧ s.length ≤ hi}
  | some (.str s) => if h : lo ≤ s.length ∧ s.length ≤ hi then some ⟨s, h⟩ else none
  | _ => none

/-- `int` with the bounds `p`. -/
def intField (p : ℤ → Prop) [DecidablePred p] (v : Option Json) : Option {n : ℤ // p n} := do
  let n ← (← v).int?
  if h : p n then some ⟨n, h⟩ else none

/-- `float` -/
def floatField : Option Json → Option String
  | some (.num text) => some text
  | _ => none

/-- `dict` -/
def dictField : Option Json → Option (List (String × Json))
  | some (.obj members) => some members
  | _ => none

/-- `str | None = None` -/
def optStrField : Option Json → Option (Option String)
  | some (.str s) => some (some s)
  | some .null | none => some none
  | _ => none

/-- An integer, as `json.dumps` writes it. -/
def ofInt (n : ℤ) : Json := .num (toString n)

end Json

open Json

/-! ### `admin/main.py` -/

/-- The class `[A-Za-z0-9._-]`. -/
def isClientIdChar (c : Char) : Bool := c.isAlphanum || c = '.' || c = '_' || c = '-'

def clientIdRe : Regex :=
  .seq .start (.seq (.set Char.isAlphanum) (.seq (.rep 0 (some 254) (.set isClientIdChar)) .end_))

/-- The client id of `keycloak_client_create`, if the form's field passes. -/
def acceptClientId (field : String) : Option String :=
  if clientIdRe.isMatch (strip field) then some (strip field) else none

/-! ### `verify/main.py` -/

/-- `int(time.time())`; the clock is a signed 64-bit count of nanoseconds. -/
structure UnixTime where
  seconds : ℤ
  seconds_lt : seconds.natAbs < 2 ^ 63

/-- `secrets.token_hex(4)` -/
def tokenHex (token : BitVec 32) : String :=
  String.ofList ((List.range 8).map fun i => Nat.digitChar (token.toNat / 16 ^ (7 - i) % 16))

/-- The action id `create_tier3_order` makes up. -/
def mintActionId (now : UnixTime) (token : BitVec 32) : String :=
  s!"act-{now.seconds}-{tokenHex token}"

/-- `_handoff_envelope`; `requestedAt` is the text of the float. -/
def handoffEnvelope (actionId clientId : String) (body : Tier3OrderRequest) (mode : Agent.Mode)
    (limit used window : ℤ) (requestedAt : String) (approvedBy : Option String) : Json :=
  .obj
    [("action_id", .str actionId),
      ("action_type", .str "order.place"),
      ("client_id", .str clientId),
      ("requested_at", .num requestedAt),
      ("payload", .obj
        [("item", .str body.item), ("quantity", ofInt body.quantity),
          ("amount_cents", ofInt body.amountCents)]),
      ("mandate", .obj
        [("mode", .str mode.text), ("weekly_limit_cents", ofInt limit), ("used_cents", ofInt used),
          ("remaining_cents", ofInt (max (limit - used) 0)), ("window_seconds", ofInt window),
          ("approved_by", approvedBy.elim .null .str)])]

/-! ### `agent/main.py` -/

namespace Agent

/-- `Literal["within_mandate", "approved_by_human"]` -/
def Mode.ofJson : Option Json → Option Mode
  | some (.str s) =>
    if s = withinMandate.text then some withinMandate
    else if s = approvedByHuman.text then some approvedByHuman
    else none
  | _ => none

def Mandate.ofJson (v : Option Json) : Option Mandate := do
  let data ← dictField v
  let mode ← Mode.ofJson (get? data "mode")
  let weeklyLimitCents ← intField (0 < ·) (get? data "weekly_limit_cents")
  let usedCents ← intField (0 ≤ ·) (get? data "used_cents")
  let remainingCents ← intField (0 ≤ ·) (get? data "remaining_cents")
  let windowSeconds ← intField (0 < ·) (get? data "window_seconds")
  let approvedBy ← optStrField (get? data "approved_by")
  return ⟨mode, weeklyLimitCents.1, usedCents.1, remainingCents.1, windowSeconds.1, approvedBy,
    weeklyLimitCents.2, usedCents.2, remainingCents.2, windowSeconds.2⟩

/-- `Literal["order.place"]` -/
def actionTypeOfJson : Option Json → Option {s : String // s = "order.place"}
  | some (.str s) => if h : s = "order.place" then some ⟨s, h⟩ else none
  | _ => none

def ActionEnvelope.ofJson (v : Json) : Option ActionEnvelope := do
  let data ← dictField (some v)
  let actionId ← strField 1 64 (get? data "action_id")
  let actionType ← actionTypeOfJson (get? data "action_type")
  let clientId ← strField 1 200 (get? data "client_id")
  let requestedAt ← floatField (get? data "requested_at")
  let payload ← dictField (get? data "payload")
  let mandate ← Mandate.ofJson (get? data "mandate")
  return ⟨actionId.1, actionType.1, clientId.1, requestedAt, payload, mandate, actionId.2, actionType.2,
    clientId.2⟩

def OrderPayload.ofJson (data : List (String × Json)) : Option OrderPayload := do
  let item ← strField 1 200 (get? data "item")
  let quantity ← intField (fun n => 0 < n ∧ n ≤ 10000) (get? data "quantity")
  let amountCents ← intField (fun n => 0 < n ∧ n ≤ 1000000) (get? data "amount_cents")
  return ⟨item.1, quantity.1, amountCents.1, item.2, quantity.2, amountCents.2⟩

/-- What `execute_action` has validated before it acts. -/
def validateAction (body : Json) : Option (ActionEnvelope × OrderPayload) := do
  let envelope ← ActionEnvelope.ofJson body
  let payload ← OrderPayload.ofJson envelope.payload
  return (envelope, payload)

/-- The status of the response to a caller with the token. -/
def actionStatus (body : Json) : ℕ := if (validateAction body).isSome then 200 else 422

/-! ### `agent/channels.py` -/

/-- `f"{amount_cents / 100:.2f}"`: exact, as the amounts are far below the precision of a float. -/
def euros (amountCents : ℤ) : String :=
  s!"{amountCents / 100}.{amountCents / 10 % 10}{amountCents % 10}"

/-- The path and the payload `channels.execute` posts; an unknown channel posts nothing. -/
def channelRequest (channel actionId clientId item : String) (quantity amountCents : ℤ) :
    Option (String × Json) :=
  if channel = "mock_erp" then
    some ("/mock-erp/orders", .obj
      [("action_id", .str actionId), ("client_id", .str clientId), ("item", .str item),
        ("quantity", ofInt quantity), ("amount_cents", ofInt amountCents)])
  else if channel = "slack_stub" then
    some ("/slack/webhook", .obj
      [("action_id", .str actionId),
        ("text", .str (s!"Order {actionId} from {clientId}: {quantity} x {item} " ++
          s!"for EUR {euros amountCents} -- needs manual handling"))])
  else if channel = "email_stub" then
    some ("/email/send", .obj
      [("action_id", .str actionId), ("to", .str "operations@example.invalid"),
        ("subject", .str s!"Order {actionId} from {clientId}"),
        ("body", .str s!"{quantity} x {item} for EUR {euros amountCents}")])
  else none

end Agent

/-! ### `stubs/main.py` -/

namespace Stubs

structure ErpOrder where
  actionId : String
  clientId : String
  item : String
  quantity : ℤ
  amountCents : ℤ
  actionId_length : 1 ≤ actionId.length ∧ actionId.length ≤ 64
  clientId_length : 1 ≤ clientId.length ∧ clientId.length ≤ 200
  item_length : 1 ≤ item.length ∧ item.length ≤ 200
  quantity_range : 0 < quantity ∧ quantity ≤ 10000
  amountCents_range : 0 < amountCents ∧ amountCents ≤ 1000000

structure SlackMessage where
  actionId : String
  text : String
  actionId_length : 1 ≤ actionId.length ∧ actionId.length ≤ 64
  text_length : 1 ≤ text.length ∧ text.length ≤ 2000

structure Email where
  actionId : String
  to_ : String
  subject : String
  body : String
  actionId_length : 1 ≤ actionId.length ∧ actionId.length ≤ 64
  to_length : 1 ≤ to_.length ∧ to_.length ≤ 200
  subject_length : 1 ≤ subject.length ∧ subject.length ≤ 500
  body_length : 1 ≤ body.length ∧ body.length ≤ 5000

def ErpOrder.ofJson (v : Json) : Option ErpOrder := do
  let data ← dictField (some v)
  let actionId ← strField 1 64 (get? data "action_id")
  let clientId ← strField 1 200 (get? data "client_id")
  let item ← strField 1 200 (get? data "item")
  let quantity ← intField (fun n => 0 < n ∧ n ≤ 10000) (get? data "quantity")
  let amountCents ← intField (fun n => 0 < n ∧ n ≤ 1000000) (get? data "amount_cents")
  return ⟨actionId.1, clientId.1, item.1, quantity.1, amountCents.1, actionId.2, clientId.2, item.2,
    quantity.2, amountCents.2⟩

def SlackMessage.ofJson (v : Json) : Option SlackMessage := do
  let data ← dictField (some v)
  let actionId ← strField 1 64 (get? data "action_id")
  let text ← strField 1 2000 (get? data "text")
  return ⟨actionId.1, text.1, actionId.2, text.2⟩

def Email.ofJson (v : Json) : Option Email := do
  let data ← dictField (some v)
  let actionId ← strField 1 64 (get? data "action_id")
  let to_ ← strField 1 200 (get? data "to")
  let subject ← strField 1 500 (get? data "subject")
  let body ← strField 1 5000 (get? data "body")
  return ⟨actionId.1, to_.1, subject.1, body.1, actionId.2, to_.2, subject.2, body.2⟩

def accepts (path : String) (body : Json) : Bool :=
  if path = "/mock-erp/orders" then (ErpOrder.ofJson body).isSome
  else if path = "/slack/webhook" then (SlackMessage.ofJson body).isSome
  else if path = "/email/send" then (Email.ofJson body).isSome
  else false

end Stubs

end Embassy
