import Embassy.AgentIdempotency
import Embassy.ChannelDispatch
import Embassy.HandoffTotal
import Embassy.Mandate

/-!
# verify, the agent and the channels as one system

`step` lets the three services run side by side, with a network in between that refuses connections, times
out, drops them, and delivers a request late or not at all. verify hands a reserved order off in at most two
attempts (`Exchange`), each on a connection of its own; what arrives on one is a request of the agent, which
decides and posts the order to a channel (`Post`); the channel records it (`Stubs.Delivery`). What an attempt
ends with, what verify settles with, what the agent answers and what the channels get is no longer anybody's
choice here.
-/

namespace Embassy
open Lib Json

/-! ### `stubs/main.py` -/

namespace Stubs

/-- What `_record` appends to `_deliveries`. -/
structure Delivery where
  atTime : ℤ
  channel : String
  reference : String
  payload : Json

def Delivery.actionId? (d : Delivery) : Option String :=
  (dictField (some d.payload)).bind fun members => str? (get? members "action_id")

def ErpOrder.dump (order : ErpOrder) : Json :=
  .obj [("action_id", .str order.actionId), ("client_id", .str order.clientId), ("item", .str order.item),
    ("quantity", ofInt order.quantity), ("amount_cents", ofInt order.amountCents)]

def SlackMessage.dump (message : SlackMessage) : Json :=
  .obj [("action_id", .str message.actionId), ("text", .str message.text)]

def Email.dump (email : Email) : Json :=
  .obj [("action_id", .str email.actionId), ("to", .str email.to_), ("subject", .str email.subject),
    ("body", .str email.body)]

/-- `f"{mark}-{int(time.time())}-{action_id[-8:]}"` -/
def reference (mark : String) (now : ℤ) (actionId : String) : String :=
  s!"{mark}-{now}-{String.ofList (actionId.toList.drop (actionId.length - 8))}"

section
variable (now atTime : ℤ)

def mockErpOrder (order : ErpOrder) : Delivery := ⟨atTime, "mock_erp", reference "ERP" now order.actionId, order.dump⟩

def slackWebhook (message : SlackMessage) : Delivery :=
  ⟨atTime, "slack_stub", reference "SLACK" now message.actionId, message.dump⟩

def emailSend (email : Email) : Delivery := ⟨atTime, "email_stub", reference "EMAIL" now email.actionId, email.dump⟩

/-- What the endpoint at the path records; `none` where it refuses the body, or is not there. -/
def receive (path : String) (body : Json) : Option Delivery :=
  if path = "/mock-erp/orders" then (ErpOrder.ofJson body).map (mockErpOrder now atTime)
  else if path = "/slack/webhook" then (SlackMessage.ofJson body).map (slackWebhook now atTime)
  else if path = "/email/send" then (Email.ofJson body).map (emailSend now atTime)
  else none

end

end Stubs

namespace Agent

def ActionStatus.text : ActionStatus → String
  | executed => "executed"
  | failed => "failed"

def ActionBody.members (body : ActionBody) : List (String × Json) :=
  [("action_id", .str body.actionId), ("status", .str body.status.text),
    ("channel", body.channel.elim .null .str), ("decided_by", body.decidedBy.elim .null .str),
    ("reference", body.reference.elim .null .str), ("detail", .str body.detail)]

end Agent

namespace EndToEnd

open Agent (ActionBody ExecuteCall Routing)

/-- How the agent's answer is written and read: the web framework's encoder and `json.loads`. -/
structure Wire where
  render : ActionBody → List UInt8
  loads : List UInt8 → Except PyExc Json
  /-- The first bytes of an answer are read as the answer, or not at all. -/
  loads_render : ∀ body n v, loads ((render body).take n) = .ok v → v = .obj body.members

structure Env where
  verify : Embassy.Env
  rules : Agent.Rules
  llm : Agent.Llm
  resultMapMax : ℕ
  /-- Both have the same `AGENT_INTERNAL_TOKEN`. -/
  sameToken : Bool
  wire : Wire

/-- `_post_action` reports a timeout. -/
def retries (o : Attempt) : Bool :=
  match postAction o with
  | .ok (.timeout, _, _) => true
  | _ => false

/-- One call of `execute_handoff`: its attempts that ended, with their connections, and the connection it
waits on. -/
structure Exchange where
  handoff : Handoff
  requestedAt : String
  ended : List (Option ℕ × Attempt)
  line : Option ℕ

namespace Exchange

/-- The next thing it does is an attempt. -/
def due (x : Exchange) : Bool :=
  match x.line, x.ended with
  | none, [] => true
  | none, [e] => retries e.2
  | _, _ => false

/-- The attempt on the connection, or without one, ended. -/
def finish (x : Exchange) (o : Attempt) : Exchange := { x with ended := x.ended ++ [(x.line, o)], line := none }

/-- What it returned or raised. -/
def result? (loads : List UInt8 → Except PyExc Json) (x : Exchange) : Option (Except PyExc HandoffResult) :=
  match x.line, x.ended with
  | none, [e] => if retries e.2 then none else some (executeHandoff loads x.handoff.order.actionId e.2 .refused)
  | none, [e, e'] => some (executeHandoff loads x.handoff.order.actionId e.2 e'.2)
  | _, _ => none

/-- `_handoff_envelope`, as both endpoints call it. -/
def envelope (window : ℤ) (x : Exchange) : Json :=
  handoffEnvelope x.handoff.order.actionId x.handoff.order.clientId x.handoff.order.body
    (if x.handoff.approvedByHuman then .approvedByHuman else .withinMandate) x.handoff.limit x.handoff.used window
    x.requestedAt (if x.handoff.approvedByHuman then some "admin" else none)

end Exchange

/-- A `channels.execute` call. -/
structure Post where
  call : ExecuteCall
  routing : Routing
  /-- The reference that the channel made, once it got the call. -/
  reference : Option String
  /-- What `channels.execute` returned first, once it did. -/
  returned : Option Bool

/-- The services and what is between them. A connection is named by a number, as is the agent's request that
came on it. -/
structure World where
  verify : Embassy.World
  /-- By action. -/
  exchanges : String → Option Exchange
  /-- The action that was sent on a connection. -/
  lines : ℕ → Option String
  agent : Agent.State
  posts : ℕ → Option Post
  /-- What `_log_decision` was called with. -/
  decisions : List Agent.Decision
  /-- What the channels recorded, and for which request. -/
  deliveries : List (ℕ × Stubs.Delivery)

def World.init : World := ⟨.init, fun _ => none, fun _ => none, .init, fun _ => none, [], []⟩

namespace World

def setExchange (w : World) (a : String) (x : Exchange) : World :=
  { w with exchanges := Function.update w.exchanges a (some x) }

def setPost (w : World) (j : ℕ) (p : Post) : World := { w with posts := Function.update w.posts j (some p) }

/-- What `execute_action` makes of the envelope of an action. -/
def validated (env : Env) (w : World) (a : String) : Option (Agent.ActionEnvelope × Agent.OrderPayload) :=
  (w.exchanges a).bind fun x => Agent.validateAction (x.envelope env.verify.windowSeconds)

/-- The exchange of an action that the agent has answered, with the status and the body; `text` is that of an
error. -/
def answer? (env : Env) (w : World) (a : String) (text : List UInt8) : Option (Exchange × ℕ × List UInt8) :=
  (w.exchanges a).bind fun x =>
    match x.line.bind w.agent.requests with
    | some ⟨_, .answered body⟩ => some (x, 200, env.wire.render body)
    | some ⟨_, .refused status⟩ => some (x, status, text)
    | _ => none

/-- A piece of one of the agent's requests. -/
def runAgent (env : Env) (w : World) (act : Agent.Act) : Option World :=
  (Agent.step env.resultMapMax w.agent act).map fun s => { w with agent := s }

end World

/-- What can happen next. -/
inductive Act
  /-- At verify, other than the next two. -/
  | verify (act : Embassy.Act)
  /-- `_handoff_envelope`, and the call of `execute_handoff`. -/
  | handOff (i : ℕ) (requestedAt : String)
  /-- It returns or raises. -/
  | settle (i : ℕ)
  /-- An attempt gets a connection; its request is on the way. -/
  | connect (a : String) (j : ℕ)
  /-- An attempt gets no connection. -/
  | unreached (a : String) (o : Attempt)
  /-- An attempt gives its connection up, or loses it. -/
  | lose (a : String) (o : Attempt)
  /-- The agent's answer is read; `text` is the body of an error. -/
  | answer (a : String) (text : List UInt8)
  /-- The connection is closed after so many bytes of it. -/
  | cut (a : String) (text : List UInt8) (n : ℕ)
  /-- A request gets to the agent. -/
  | arrive (j : ℕ)
  /-- The piece of a request that does not decide or execute. -/
  | agent (act : Agent.Act)
  /-- `_decide_and_execute` up to the call of `channels.execute`. -/
  | decide (j : ℕ) (complete : String → Except PyExc (List UInt8)) (now : ℤ)
  /-- A post gets to its channel. -/
  | deliver (j : ℕ) (now atTime : ℤ)
  /-- `channels.execute` returns, having heard of the channel or not; the rest of `_decide_and_execute`. -/
  | posted (j : ℕ) (heard : Bool) (now : ℤ)

/-- One step of one service, or of the network. -/
def step (env : Env) (w : World) : Act → Option World
  | .verify act =>
    match act with
    | .handOff _ | .settle .. => none
    | act => (Embassy.step env.verify w.verify act).map fun v => { w with verify := v }
  | .handOff i requestedAt =>
    match w.verify.handlers i with
    | some (.reserved h) =>
      (Embassy.step env.verify w.verify (.handOff i)).map fun v =>
        { w with verify := v }.setExchange h.order.actionId ⟨h, requestedAt, [], none⟩
    | _ => none
  | .settle i =>
    match w.verify.handlers i with
    | some (.executing h) =>
      match (w.exchanges h.order.actionId).bind (Exchange.result? env.wire.loads) with
      | some result =>
        (Embassy.step env.verify w.verify (.settle i result)).map fun v => { w with verify := v }
      | none => none
    | _ => none
  | .connect a j =>
    match w.exchanges a, w.lines j with
    | some x, none =>
      if x.due then
        some ({ w with lines := Function.update w.lines j (some a) }.setExchange a { x with line := some j })
      else none
    | _, _ => none
  | .unreached a o =>
    match w.exchanges a, o with
    | some x, .refused | some x, .connectTimeout => if x.due then some (w.setExchange a (x.finish o)) else none
    | _, _ => none
  | .lose a o =>
    match w.exchanges a, o with
    | some x, .timeout _ | some x, .dropped _ =>
      if x.line.isSome then some (w.setExchange a (x.finish o)) else none
    | _, _ => none
  | .answer a text =>
    (w.answer? env a text).map fun (x, status, body) => w.setExchange a (x.finish (.response status body))
  | .cut a text n =>
    (w.answer? env a text).map fun (x, status, body) => w.setExchange a (x.finish (.closed status (body.take n)))
  | .arrive j =>
    match w.lines j with
    | some a => w.runAgent env (.arrive j a env.sameToken (w.validated env a).isSome)
    | none => none
  | .agent act =>
    match act with
    | .obtain _ | .acquire _ | .lookUp _ | .store _ | .release _ => w.runAgent env act
    | _ => none
  | .decide j complete now =>
    match w.agent.requests j with
    | some ⟨a, .deciding _⟩ =>
      match w.validated env a with
      | some (envelope, payload) =>
        match Agent.route env.rules { env.llm with complete := complete } envelope payload with
        | .error _ => w.runAgent env (.raise j)
        | .ok r =>
          let run := Agent.dispatch (fun _ => (false, none)) now envelope payload r
          match r.channel, run.result with
          | some channel, _ =>
            (w.runAgent env (.execute j)).map fun w =>
              w.setPost j ⟨Agent.executeCall envelope payload channel, r, none, none⟩
          | none, .ok body =>
            (w.runAgent env (.refuse j body)).map fun w => { w with decisions := w.decisions ++ run.logged }
          | none, .error _ => none
      | none => none
    | _ => none
  | .deliver j now atTime =>
    match w.posts j with
    | some p =>
      match p.reference, p.call.request with
      | none, some (path, body) =>
        (Stubs.receive now atTime path body).map fun d =>
          { w with deliveries := w.deliveries ++ [(j, d)] }.setPost j { p with reference := some d.reference }
      | _, _ => none
    | none => none
  | .posted j heard now =>
    match w.agent.requests j, w.posts j with
    | some ⟨a, .executing _⟩, some p =>
      match w.validated env a with
      | some (envelope, payload) =>
        let reference := if heard then p.reference else none
        let run := Agent.dispatch (fun _ => (reference.isSome, reference)) now envelope payload p.routing
        match run.result with
        | .ok body =>
          (w.runAgent env (.executed j body)).map fun w =>
            { w with decisions := w.decisions ++ run.logged }.setPost j { p with returned := some reference.isSome }
        | .error _ => none
      | none => none
    | _, _ => none

end EndToEnd

end Embassy
