import Embassy.Lib.Dict
import Embassy.Lib.KeyedCap
import Embassy.Handoff
import Mathlib

/-!
# Tier 3's half of `Store` (`verify/main.py`)

The audit trail, the approval queue and the resolution map, and the `Store` methods on each. A
method that reads the clock takes the reading as `now`; readings and durations are integers, in ticks
of the clock. `settlement` is what `_settle_handoff` writes
for each handoff result.
-/

namespace Embassy
open Lib

/-- `Tier3Event.outcome`. -/
inductive Outcome
  | accepted
  | rejected
  | queued
  | expired
  deriving DecidableEq, Repr

/-- One row of the audit trail. -/
structure Tier3Event where
  atTime : ℤ
  clientId : String
  item : String
  amountCents : ℕ
  outcome : Outcome
  reason : String
  orderNumber : Option String
  actionId : Option String
  deriving DecidableEq, Repr

/-- A validated order body; the bounds are pydantic's. -/
structure Tier3OrderRequest where
  item : String
  quantity : ℕ
  amountCents : ℕ
  item_length : 1 ≤ item.length ∧ item.length ≤ 200
  quantity_range : 0 < quantity ∧ quantity ≤ 10000
  amountCents_range : 0 < amountCents ∧ amountCents ≤ 1000000
  deriving DecidableEq, Repr

/-- One queued action; it is only ever made from a validated order. -/
structure Tier3PendingAction extends Tier3OrderRequest where
  actionId : String
  clientId : String
  queuedAt : ℤ
  expiresAt : ℤ
  deriving DecidableEq, Repr

/-- `Tier3Resolution.status`. -/
inductive ResolutionStatus
  | queued
  | executed
  | failed
  | rejected
  | expired
  | executionUnknown
  deriving DecidableEq, Repr

/-- The pollable fate of one action. -/
structure Tier3Resolution where
  actionId : String
  clientId : String
  status : ResolutionStatus
  detail : String
  createdAt : ℤ
  updatedAt : ℤ
  channel : Option String
  orderNumber : Option String
  deriving DecidableEq, Repr

/-- The settings read at start-up. A cap counts entries, and one below zero acts like zero. -/
structure Tier3Config where
  windowSeconds : ℤ
  auditMax : ℕ
  pendingTtlSeconds : ℤ
  pendingMaxPerClient : ℕ
  resolutionTtlSeconds : ℤ
  resolutionMaxPerClient : ℕ
  deriving Repr

/-- `Store.__init__`: unset variables take their defaults, and a TTL of 0 becomes the window. -/
def Tier3Config.ofEnviron (window auditMax pendingTtl pendingMax resolutionTtl resolutionMax : Option ℤ) :
    Tier3Config :=
  let window := window.getD 604800
  let orWindow (ttl : ℤ) : ℤ := if ttl = 0 then window else ttl
  { windowSeconds := window
    auditMax := (auditMax.getD 500).toNat
    pendingTtlSeconds := orWindow (pendingTtl.getD 0)
    pendingMaxPerClient := (pendingMax.getD 10).toNat
    resolutionTtlSeconds := orWindow (resolutionTtl.getD 0)
    resolutionMaxPerClient := (resolutionMax.getD 500).toNat }

/-- The mutable Tier 3 attributes of `Store`. -/
structure Tier3Store where
  tier3Grants : Dict String ℕ
  tier3Events : List Tier3Event
  tier3Pending : Dict String Tier3PendingAction
  tier3Resolutions : Dict String Tier3Resolution

def Tier3Store.init : Tier3Store := ⟨.empty, [], .empty, .empty⟩

section Events
variable (cfg : Tier3Config)

/-- The age prune of `record_tier3_event`. -/
def pruneByAge (now : ℤ) (events : List Tier3Event) : List Tier3Event :=
  events.filter fun e => now - cfg.windowSeconds ≤ e.atTime

/-- The per-client cap of `record_tier3_event`. -/
def capPerClient (events : List Tier3Event) : List Tier3Event :=
  capPerKey Tier3Event.clientId cfg.auditMax events

/-- `record_tier3_event`; the new event carries the reading the method takes. -/
def recordTier3Event (events : List Tier3Event) (e : Tier3Event) : List Tier3Event :=
  capPerClient cfg (pruneByAge cfg e.atTime (events ++ [e]))

/-- The events `tier3_used_cents` sums. -/
def counts (clientId : String) (now : ℤ) (e : Tier3Event) : Bool :=
  e.clientId = clientId ∧ e.outcome = .accepted ∧ now - cfg.windowSeconds ≤ e.atTime

def tier3UsedCents (events : List Tier3Event) (clientId : String) (now : ℤ) : ℕ :=
  ((events.filter (counts cfg clientId now)).map Tier3Event.amountCents).sum

end Events

/-- What `settle_tier3_event` writes into the event it finds. -/
def Tier3Event.settle (outcome : Outcome) (reason : String) (orderNumber : Option String)
    (e : Tier3Event) : Tier3Event :=
  { e with outcome := outcome, reason := reason, orderNumber := orderNumber <|> e.orderNumber }

/-- `settle_tier3_event`: the newest event of the action, if there is one. -/
def settleTier3Event (events : List Tier3Event) (actionId : String) (outcome : Outcome)
    (reason : String) (orderNumber : Option String) : List Tier3Event :=
  modifyNewest (fun e => e.actionId = some actionId) (Tier3Event.settle outcome reason orderNumber) events

section Queue
variable (cfg : Tier3Config)

/-- The entry `queue_tier3_action` adds. -/
def queuedAction (now : ℤ) (actionId clientId : String) (body : Tier3OrderRequest) :
    Tier3PendingAction :=
  { body with
    actionId := actionId
    clientId := clientId
    queuedAt := now
    expiresAt := now + cfg.pendingTtlSeconds }

/-- The resolution a first `set_tier3_resolution` of an action makes. -/
def newResolution (now : ℤ) (actionId clientId : String) (status : ResolutionStatus)
    (detail : String) (channel orderNumber : Option String) : Tier3Resolution :=
  ⟨actionId, clientId, status, detail, now, now, channel, orderNumber⟩

/-- What a later `set_tier3_resolution` writes into the entry. -/
def Tier3Resolution.update (now : ℤ) (status : ResolutionStatus) (detail : String)
    (channel orderNumber : Option String) (r : Tier3Resolution) : Tier3Resolution :=
  { r with
    status := status
    detail := detail
    updatedAt := now
    channel := channel <|> r.channel
    orderNumber := orderNumber <|> r.orderNumber }

/-- `set_tier3_resolution`: in place when the action has an entry; a new entry goes to the end, then
entries past the TTL go and then the oldest past the client's cap. -/
def setTier3Resolution (now : ℤ) (resolutions : Dict String Tier3Resolution)
    (actionId clientId : String) (status : ResolutionStatus) (detail : String)
    (channel orderNumber : Option String) : Dict String Tier3Resolution :=
  match resolutions.get? actionId with
  | some existing => resolutions.set actionId (existing.update now status detail channel orderNumber)
  | none =>
    let added := resolutions.set actionId
      (newResolution now actionId clientId status detail channel orderNumber)
    let young := added.filter fun _ r => now - cfg.resolutionTtlSeconds ≤ r.updatedAt
    young.capPerKey Tier3Resolution.clientId cfg.resolutionMaxPerClient

/-- `get_tier3_resolution`: an entry past the TTL is deleted and not returned. -/
def getTier3Resolution (now : ℤ) (resolutions : Dict String Tier3Resolution) (actionId : String) :
    Option Tier3Resolution × Dict String Tier3Resolution :=
  match resolutions.get? actionId with
  | none => (none, resolutions)
  | some r =>
    if now - r.updatedAt > cfg.resolutionTtlSeconds then (none, resolutions.erase actionId)
    else (some r, resolutions)

end Queue

/-- The arguments of the `settle_tier3_event` and `set_tier3_resolution` calls of `_settle_handoff`;
both get the same order number. -/
structure Settlement where
  outcome : Outcome
  reason : String
  status : ResolutionStatus
  detail : String
  channel : Option String
  orderNumber : Option String
  deriving DecidableEq, Repr

def settlementPrefix (approvedByHuman : Bool) : String :=
  if approvedByHuman then "approved by human (out of mandate), " else "within mandate, "

/-- What `_settle_handoff` writes. -/
def settlement (approvedByHuman : Bool) : HandoffResult → Settlement
  | .executed channel decidedBy reference =>
    { outcome := .accepted
      reason := settlementPrefix approvedByHuman ++
        s!"executed via {channel} (decided by {decidedBy})"
      status := .executed
      detail := s!"executed via {channel}"
      channel := some channel
      orderNumber := some reference }
  | .failed _ _ _ =>
    { outcome := .rejected
      reason := settlementPrefix approvedByHuman ++
        "internal agent could not execute (no routing rule or channel failure) -- budget released"
      status := .failed
      detail := "the internal agent could not execute this action"
      channel := none
      orderNumber := none }
  | .down =>
    { outcome := .rejected
      reason := settlementPrefix approvedByHuman ++
        "internal agent unavailable -- failed closed, budget released"
      status := .failed
      detail := "the internal agent was unavailable; not executed"
      channel := none
      orderNumber := none }
  | .unknown =>
    { outcome := .accepted
      reason := settlementPrefix approvedByHuman ++
        "handoff did not complete -- budget consumed, execution unknown (reconcile via the internal agent's decision log)"
      status := .executionUnknown
      detail := "the handoff did not complete; the action may have executed"
      channel := none
      orderNumber := none }

end Embassy
