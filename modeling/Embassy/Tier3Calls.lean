import Embassy.AuditTrail

/-!
# The calls on Tier 3's state

Everything the Tier 3 endpoints do to the store, and their handoffs, as one alphabet: a `Call` is a
`Store` method call (or a write to `tier3_grants`, or a `pop` of the queue) with its arguments and
the clock reading it takes. `Call.apply` is its effect.
-/

namespace Embassy
open Lib

/-- An order that got its action id. -/
structure Order where
  actionId : String
  clientId : String
  body : Tier3OrderRequest
  deriving DecidableEq, Repr

/-- The audit event an endpoint records about an order. -/
def Order.event (o : Order) (now : ℤ) (outcome : Outcome) (reason : String) : Tier3Event :=
  ⟨now, o.clientId, o.body.item, o.body.amountCents, outcome, reason, none, some o.actionId⟩

/-- The order a queued action was made from. -/
def Tier3PendingAction.order (p : Tier3PendingAction) : Order :=
  ⟨p.actionId, p.clientId, p.toTier3OrderRequest⟩

/-- What takes an entry out of the approval queue. -/
inductive Exit
  | approve
  | reject
  | expire
  | revoke
  deriving DecidableEq, Repr

inductive Call
  /-- `create_tier3_order` made up an action id. -/
  | minted (o : Order)
  /-- `record_tier3_event` -/
  | recorded (e : Tier3Event)
  /-- The `record_tier3_event` that reserves budget, within the mandate or approved by a human. -/
  | reserved (approvedByHuman : Bool) (e : Tier3Event)
  /-- The `settle_tier3_event` of `_settle_handoff`. -/
  | settled (actionId : String) (approvedByHuman : Bool) (result : HandoffResult)
  /-- `queue_tier3_action` -/
  | queued (p : Tier3PendingAction)
  /-- `tier3_pending.pop`; `now` is what `prune_tier3_pending` read in the same locked block. -/
  | popped (exit : Exit) (now : ℤ) (p : Tier3PendingAction)
  /-- `set_tier3_resolution`: `r` carries its arguments and its reading, `created` says that the
  action had no entry. -/
  | resolved (created : Bool) (r : Tier3Resolution)
  /-- `get_tier3_resolution` -/
  | looked (now : ℤ) (actionId : String)
  /-- `tier3_grants[client_id] = weekly_limit_cents` -/
  | granted (clientId : String) (limit : ℕ)
  /-- `tier3_grants.pop(client_id, None)` -/
  | ungranted (clientId : String)
  /-- `execute_handoff` is called. -/
  | handedOff (actionId : String)
  deriving DecidableEq, Repr

namespace Call

def apply (cfg : Tier3Config) (s : Tier3Store) : Call → Tier3Store
  | minted _ | handedOff _ => s
  | recorded e | reserved _ e => { s with tier3Events := recordTier3Event cfg s.tier3Events e }
  | settled a approvedByHuman result =>
    let w := settlement approvedByHuman result
    { s with tier3Events := settleTier3Event s.tier3Events a w.outcome w.reason w.orderNumber }
  | queued p => { s with tier3Pending := s.tier3Pending.set p.actionId p }
  | popped _ _ p => { s with tier3Pending := s.tier3Pending.erase p.actionId }
  | resolved _ r =>
    { s with
      tier3Resolutions := setTier3Resolution cfg r.updatedAt s.tier3Resolutions r.actionId r.clientId
        r.status r.detail r.channel r.orderNumber }
  | looked now a => { s with tier3Resolutions := (getTier3Resolution cfg now s.tier3Resolutions a).2 }
  | granted c limit => { s with tier3Grants := s.tier3Grants.set c limit }
  | ungranted c => { s with tier3Grants := s.tier3Grants.erase c }

/-- The action a call is about. Polling one is not about it. -/
def about : Call → Option String
  | minted o => some o.actionId
  | recorded e | reserved _ e => e.actionId
  | settled a .. | handedOff a => some a
  | queued p | popped _ _ p => some p.actionId
  | resolved _ r => some r.actionId
  | looked .. | granted .. | ungranted _ => none

/-- The reading the call takes itself. -/
def time? : Call → Option ℤ
  | recorded e | reserved _ e => some e.atTime
  | queued p => some p.queuedAt
  | resolved _ r => some r.updatedAt
  | looked now _ => some now
  | minted _ | settled .. | popped .. | granted .. | ungranted _ | handedOff _ => none

def audit? : Call → Option AuditCall
  | recorded e | reserved _ e => some (.record e)
  | settled a approvedByHuman result =>
    let w := settlement approvedByHuman result
    some (.settle a w.outcome w.reason w.orderNumber)
  | _ => none

def event? : Call → Option Tier3Event
  | recorded e | reserved _ e => some e
  | _ => none

end Call

/-- The calls on the audit trail among all calls. -/
def auditCalls (trace : List Call) : List AuditCall := trace.filterMap Call.audit?

def storeAfter (cfg : Tier3Config) (trace : List Call) : Tier3Store :=
  trace.foldl (Call.apply cfg) .init

section
variable {cfg : Tier3Config} {trace : List Call} {call : Call}

theorem storeAfter_concat :
    storeAfter cfg (trace ++ [call]) = call.apply cfg (storeAfter cfg trace) := by
  simp [storeAfter]

theorem auditCalls_concat : auditCalls (trace ++ [call]) = auditCalls trace ++ call.audit?.toList := by
  rw [auditCalls, List.filterMap_append]
  cases h : call.audit? <;> simp [auditCalls, h]

theorem tier3Events_storeAfter :
    (storeAfter cfg trace).tier3Events = replay cfg (auditCalls trace) := by
  induction trace using List.reverseRecOn with
  | nil => rfl
  | append_singleton trace call ih =>
    rw [storeAfter_concat, auditCalls_concat]
    cases call <;> simp [Call.apply, Call.audit?, ih, replay_concat, AuditCall.apply]

theorem auditTimes_sublist (trace : List Call) :
    ((auditCalls trace).filterMap AuditCall.time?).Sublist (trace.filterMap Call.time?) := by
  rw [auditCalls, List.filterMap_filterMap]
  induction trace with
  | nil => exact .slnil
  | cons c trace ih =>
    have htail := ih
    cases c <;> simp only [List.filterMap_cons, Call.audit?, Call.time?, AuditCall.time?, Option.bind_none,
      Option.bind_some] <;> first | exact htail | exact htail.cons_cons _ | exact htail.cons _

end

end Embassy
