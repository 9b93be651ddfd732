import Embassy.PyValue

/-!
# The agent's request models (`agent/main.py`)

`ActionEnvelope`, `Mandate` and `OrderPayload` with pydantic's bounds as fields. Lengths count code
points.
-/

namespace Embassy

namespace Agent

/-- `Mandate.mode` -/
inductive Mode
  | withinMandate
  | approvedByHuman
  deriving DecidableEq, Repr

def Mode.text : Mode → String
  | withinMandate => "within_mandate"
  | approvedByHuman => "approved_by_human"

structure Mandate where
  mode : Mode
  weeklyLimitCents : ℤ
  usedCents : ℤ
  remainingCents : ℤ
  windowSeconds : ℤ
  approvedBy : Option String
  weeklyLimitCents_pos : 0 < weeklyLimitCents
  usedCents_nonneg : 0 ≤ usedCents
  remainingCents_nonneg : 0 ≤ remainingCents
  windowSeconds_pos : 0 < windowSeconds

structure ActionEnvelope where
  actionId : String
  actionType : String
  clientId : String
  /-- A number, as its text. -/
  requestedAt : String
  payload : List (String × Json)
  mandate : Mandate
  actionId_length : 1 ≤ actionId.length ∧ actionId.length ≤ 64
  actionType_eq : actionType = "order.place"
  clientId_length : 1 ≤ clientId.length ∧ clientId.length ≤ 200

structure OrderPayload where
  item : String
  quantity : ℤ
  amountCents : ℤ
  item_length : 1 ≤ item.length ∧ item.length ≤ 200
  quantity_range : 0 < quantity ∧ quantity ≤ 10000
  amountCents_range : 0 < amountCents ∧ amountCents ≤ 1000000

end Agent

end Embassy
