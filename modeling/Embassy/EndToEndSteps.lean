import Embassy.EndToEnd
import Embassy.Lib.Table

/-!
# What a step of the three services does

`Moves` says of every step what it found and what it left. What arrives at the agent and at a channel is what
verify and `channels.execute` wrote (`validateAction_eq_some`, `receive_eq_some`). verify and the agent run as
they do on their own (`verify_of_moves`, `agent_of_moves`), so what is known of their runs holds here.
-/

namespace Embassy
open Lib Json

namespace Json
variable {lo hi : ℕ} {s : String} {n : ℤ}

theorem eq_of_strField {x : {s : String // lo ≤ s.length ∧ s.length ≤ hi}}
    (h : strField lo hi (some (.str s)) = some x) : x.1 = s := by
  unfold strField at h
  simp only at h
  split at h <;> [skip; cases h]
  obtain rfl := Option.some.inj h
  rfl

theorem eq_of_intField {p : ℤ → Prop} [DecidablePred p] {x : {n : ℤ // p n}}
    (h : intField p (some (ofInt n)) = some x) : x.1 = n := by
  unfold intField at h
  simp only [Option.bind_eq_bind, Option.bind_some, int?_ofInt] at h
  split at h <;> [skip; cases h]
  obtain rfl := Option.some.inj h
  rfl

end Json

namespace Agent

/-- Whatever passes of an envelope is what verify wrote. -/
theorem validateAction_eq_some {actionId clientId : String} {body : Tier3OrderRequest} {mode : Mode}
    {limit used window : ℤ} {requestedAt : String} {approvedBy : Option String} {envelope : ActionEnvelope}
    {payload : OrderPayload} (h : validateAction (handoffEnvelope actionId clientId body mode limit used window
      requestedAt approvedBy) = some (envelope, payload)) :
    envelope.actionId = actionId ∧ envelope.clientId = clientId ∧ payload = payloadOf body := by
  simp only [validateAction, Option.bind_eq_bind, Option.bind_eq_some_iff, Option.pure_def, Option.some.injEq,
    Prod.mk.injEq] at h
  obtain ⟨envelope, he, payload, hp, rfl, rfl⟩ := h
  simp only [ActionEnvelope.ofJson, handoffEnvelope, dictField, Option.bind_eq_bind, Option.bind_some, get?_cons,
    get?_nil, String.reduceEq, if_true, if_false, Option.or_none, Option.or_some, Option.getD_none] at he
  simp only [Option.bind_eq_some_iff, Option.pure_def, Option.some.injEq] at he
  obtain ⟨a, ha, _, -, c, hc, _, -, m, -, rfl⟩ := he
  rw [orderPayload_ofJson] at hp
  exact ⟨eq_of_strField ha, eq_of_strField hc, (Option.some.inj hp).symm⟩

/-! ### A step of the agent -/

/-- What a step does to the request it is about. -/
inductive Turns (s : State) (a : String) : Act → Pc → Pc → Prop
  | obtain {i l} : Turns s a (.obtain i) .arrived (.obtained l)
  | acquire {i l} : Turns s a (.acquire i) (.obtained l) (.acquired l)
  | found {i l body} (h : s.results.get? a = some body) : Turns s a (.lookUp i) (.acquired l) (.leaving l body)
  | missed {i l} : Turns s a (.lookUp i) (.acquired l) (.deciding l)
  | execute {i l} : Turns s a (.execute i) (.deciding l) (.executing l)
  | executed {i l body} : Turns s a (.executed i body) (.executing l) (.decided l body)
  | refuse {i l body} : Turns s a (.refuse i body) (.deciding l) (.decided l body)
  | raise {i l} : Turns s a (.raise i) (.deciding l) (.refused 500)
  | store {i l body} : Turns s a (.store i) (.decided l body) (.leaving l body)
  | release {i l body} : Turns s a (.release i) (.leaving l body) (.answered body)

def Act.request : Act → ℕ
  | .arrive i _ _ _ | .obtain i | .acquire i | .lookUp i | .execute i | .executed i _ | .refuse i _ | .raise i
  | .store i | .release i => i

/-- Where a request is when it arrived. -/
def onArrival (tokenOk payloadOk : Bool) : Pc :=
  if !tokenOk then .refused 403 else if !payloadOk then .refused 422 else .arrived

theorem onArrival_cases (tokenOk payloadOk : Bool) :
    onArrival tokenOk payloadOk = .arrived ∧ tokenOk = true ∧ payloadOk = true ∨
    ∃ n, onArrival tokenOk payloadOk = .refused n ∧ n ≠ 200 ∧ ¬ (tokenOk = true ∧ payloadOk = true) := by
  cases tokenOk with
  | false => exact .inr ⟨403, rfl, by decide, by simp⟩
  | true =>
    cases payloadOk with
    | false => exact .inr ⟨422, rfl, by decide, by simp⟩
    | true => exact .inl ⟨rfl, rfl, rfl⟩

section
variable {resultMapMax : ℕ} {s s' : State} {act : Act}

theorem step_cases (hs : step resultMapMax s act = some s') :
    (∃ i a tokenOk payloadOk, act = .arrive i a tokenOk payloadOk ∧ s.requests i = none ∧
      s' = s.goto i a (onArrival tokenOk payloadOk)) ∨
    (∃ a pc pc', s.requests act.request = some ⟨a, pc⟩ ∧ Turns s a act pc pc' ∧
      s'.requests = Function.update s.requests act.request (some ⟨a, pc'⟩) ∧
      ((∀ i, act ≠ .store i) → s'.results = s.results)) := by
  cases act with
  | arrive i a tokenOk payloadOk =>
    simp only [step] at hs
    split at hs <;> [rename_i hi; cases hs]
    refine .inl ⟨i, a, tokenOk, payloadOk, rfl, hi, ?_⟩
    unfold onArrival
    split at hs
    · rw [if_pos ‹_›]; exact (Option.some.inj hs).symm
    · rw [if_neg ‹_›]
      split at hs
      · rw [if_pos ‹_›]; exact (Option.some.inj hs).symm
      · rw [if_neg ‹_›]; exact (Option.some.inj hs).symm
  | obtain i =>
    simp only [step] at hs
    split at hs <;> [rename_i a hi; cases hs]
    obtain rfl := Option.some.inj hs
    have hkeep : (s.actionLock a).2.requests = s.requests ∧ (s.actionLock a).2.results = s.results := by
      unfold State.actionLock
      split <;> exact ⟨rfl, rfl⟩
    exact .inr ⟨a, _, _, hi, .obtain, congrArg (Function.update · i _) hkeep.1, fun _ => hkeep.2⟩
  | acquire i =>
    simp only [step] at hs
    split at hs <;> [rename_i a l hi; cases hs]
    split at hs <;> [cases hs; skip]
    obtain rfl := Option.some.inj hs
    exact .inr ⟨a, _, _, hi, .acquire, rfl, fun _ => rfl⟩
  | lookUp i =>
    simp only [step] at hs
    split at hs <;> [rename_i a l hi; cases hs]
    split at hs <;> rename_i hres <;> obtain rfl := Option.some.inj hs
    · exact .inr ⟨a, _, _, hi, .found hres, rfl, fun _ => rfl⟩
    · exact .inr ⟨a, _, _, hi, .missed, rfl, fun _ => rfl⟩
  | execute i =>
    simp only [step] at hs
    split at hs <;> [rename_i a l hi; cases hs]
    obtain rfl := Option.some.inj hs
    exact .inr ⟨a, _, _, hi, .execute, rfl, fun _ => rfl⟩
  | executed i body =>
    simp only [step] at hs
    split at hs <;> [rename_i a l hi; cases hs]
    obtain rfl := Option.some.inj hs
    exact .inr ⟨a, _, _, hi, .executed, rfl, fun _ => rfl⟩
  | refuse i body =>
    simp only [step] at hs
    split at hs <;> [rename_i a l hi; cases hs]
    obtain rfl := Option.some.inj hs
    exact .inr ⟨a, _, _, hi, .refuse, rfl, fun _ => rfl⟩
  | raise i =>
    simp only [step] at hs
    split at hs <;> [rename_i a l hi; cases hs]
    obtain rfl := Option.some.inj hs
    exact .inr ⟨a, _, _, hi, .raise, rfl, fun _ => rfl⟩
  | store i =>
    simp only [step] at hs
    split at hs <;> [rename_i a l body hi; cases hs]
    obtain rfl := Option.some.inj hs
    exact .inr ⟨a, _, _, hi, .store, rfl, fun h => absurd rfl (h i)⟩
  | release i =>
    simp only [step] at hs
    split at hs <;> [rename_i a l body hi; cases hs]
    obtain rfl := Option.some.inj hs
    exact .inr ⟨a, _, _, hi, .release, rfl, fun _ => rfl⟩

theorem results_of_store {i : ℕ} {a : String} {l : LockId} {body : ActionBody} (hI : Inv s)
    (hi : s.requests i = some ⟨a, .decided l body⟩) (hs : step resultMapMax s (.store i) = some s')
    (hmax : s'.stored.card < resultMapMax) : s'.results = s.results.set a body := by
  simp only [step, hi] at hs
  obtain rfl := Option.some.inj hs
  exact storeResult_results hI hmax

/-- Answered, or refused. -/
def Pc.over : Pc → Prop
  | answered _ | refused _ => True
  | _ => False

theorem Turns.not_over {a : String} {pc pc' : Pc} (h : Turns s a act pc pc') : ¬ pc.over := by
  cases h <;> exact id

theorem request_of_over {j : ℕ} {a : String} {pc : Pc} (hs : step resultMapMax s act = some s')
    (hj : s.requests j = some ⟨a, pc⟩) (hover : pc.over) : s'.requests j = some ⟨a, pc⟩ := by
  rcases step_cases hs with ⟨i, b, _, _, -, hi, rfl⟩ | ⟨b, pc₀, pc', hi, hturn, hreq, -⟩
  · have hji : j ≠ i := by
      rintro rfl
      rw [hi] at hj
      cases hj
    exact (goto_requests ..).trans (if_neg hji |>.trans hj)
  · rw [hreq, Function.update_apply]
    split <;> rename_i hji
    · rw [hji, hi] at hj
      obtain ⟨-, rfl⟩ := Request.mk.inj (Option.some.inj hj)
      exact absurd hover hturn.not_over
    · exact hj

theorem request_of_step {j : ℕ} {a : String} {pc : Pc} (hs : step resultMapMax s act = some s')
    (hj : s'.requests j = some ⟨a, pc⟩) :
    (∃ tokenOk payloadOk, act = .arrive j a tokenOk payloadOk ∧ pc = onArrival tokenOk payloadOk) ∨
      s.requests j = some ⟨a, pc⟩ ∨ (∃ pc₀, s.requests j = some ⟨a, pc₀⟩ ∧ act.request = j ∧ Turns s a act pc₀ pc) := by
  rcases step_cases hs with ⟨i, b, tokenOk, payloadOk, hact, hi, rfl⟩ | ⟨b, pc₀, pc', hi, hturn, hreq, -⟩
  · rcases goto_cases hj with ⟨rfl, rfl, rfl⟩ | ⟨-, hj⟩
    · exact .inl ⟨tokenOk, payloadOk, hact, rfl⟩
    · exact .inr (.inl hj)
  · rw [hreq] at hj
    rcases of_update hj with ⟨hji, hself⟩ | ⟨-, hj⟩
    · obtain ⟨rfl, rfl⟩ := Request.mk.inj hself
      exact .inr (.inr ⟨pc₀, hji ▸ hi, hji.symm, hturn⟩)
    · exact .inr (.inl hj)

end

end Agent

namespace Stubs

open Agent (channelRequest)

variable {actionId clientId item : String} {quantity amountCents : ℤ}

/-! ### What a model dumps is what it was given -/

theorem ErpOrder.dump_of_ofJson {order : ErpOrder} (h : ErpOrder.ofJson (.obj
      [("action_id", .str actionId), ("client_id", .str clientId), ("item", .str item),
        ("quantity", ofInt quantity), ("amount_cents", ofInt amountCents)]) = some order) :
    order.dump = .obj [("action_id", .str actionId), ("client_id", .str clientId), ("item", .str item),
      ("quantity", ofInt quantity), ("amount_cents", ofInt amountCents)] := by
  simp only [ErpOrder.ofJson, dictField, Option.bind_eq_bind, Option.bind_some, get?_cons, get?_nil,
    String.reduceEq, if_true, if_false, Option.or_none, Option.or_some, Option.getD_none] at h
  simp only [Option.bind_eq_some_iff, Option.pure_def, Option.some.injEq] at h
  obtain ⟨a, ha, c, hc, i, hi, q, hq, n, hn, rfl⟩ := h
  simp only [ErpOrder.dump, eq_of_strField ha, eq_of_strField hc, eq_of_strField hi, eq_of_intField hq,
    eq_of_intField hn]

theorem SlackMessage.dump_of_ofJson {text : String} {message : SlackMessage}
    (h : SlackMessage.ofJson (.obj [("action_id", .str actionId), ("text", .str text)]) = some message) :
    message.dump = .obj [("action_id", .str actionId), ("text", .str text)] := by
  simp only [SlackMessage.ofJson, dictField, Option.bind_eq_bind, Option.bind_some, get?_cons, get?_nil,
    String.reduceEq, if_true, if_false, Option.or_none, Option.or_some, Option.getD_none] at h
  simp only [Option.bind_eq_some_iff, Option.pure_def, Option.some.injEq] at h
  obtain ⟨a, ha, t, ht, rfl⟩ := h
  simp only [SlackMessage.dump, eq_of_strField ha, eq_of_strField ht]

theorem Email.dump_of_ofJson {to_ subject body : String} {email : Email} (h : Email.ofJson (.obj
      [("action_id", .str actionId), ("to", .str to_), ("subject", .str subject), ("body", .str body)]) =
        some email) :
    email.dump = .obj [("action_id", .str actionId), ("to", .str to_), ("subject", .str subject),
      ("body", .str body)] := by
  simp only [Email.ofJson, dictField, Option.bind_eq_bind, Option.bind_some, get?_cons, get?_nil,
    String.reduceEq, if_true, if_false, Option.or_none, Option.or_some, Option.getD_none] at h
  simp only [Option.bind_eq_some_iff, Option.pure_def, Option.some.injEq] at h
  obtain ⟨a, ha, t, ht, s, hs, b, hb, rfl⟩ := h
  simp only [Email.dump, eq_of_strField ha, eq_of_strField ht, eq_of_strField hs, eq_of_strField hb]

/-- A channel records what `channels.execute` posted to it. -/
theorem receive_eq_some {now atTime : ℤ} {channel path : String} {body : Json} {d : Delivery}
    (hreq : channelRequest channel actionId clientId item quantity amountCents = some (path, body))
    (h : receive now atTime path body = some d) :
    d.channel = channel ∧ d.payload = body ∧ d.actionId? = some actionId := by
  have hid : ∀ members, d.payload = body → body = .obj members → str? (get? members "action_id") = some actionId →
      d.actionId? = some actionId := by
    rintro members hd rfl hget
    rw [Delivery.actionId?, hd]
    exact hget
  unfold channelRequest at hreq
  split at hreq
  · rename_i hc
    obtain ⟨rfl, rfl⟩ := Prod.mk.inj (Option.some.inj hreq)
    obtain ⟨order, ho, rfl⟩ := Option.map_eq_some_iff.1 (by simpa only [receive, if_true] using h)
    have hdump := ErpOrder.dump_of_ofJson ho
    exact ⟨hc.symm, hdump, hid _ hdump rfl (by simp [get?_cons, str?])⟩
  · split at hreq
    · rename_i hc
      obtain ⟨rfl, rfl⟩ := Prod.mk.inj (Option.some.inj hreq)
      obtain ⟨message, hm, rfl⟩ := Option.map_eq_some_iff.1
        (by simpa only [receive, String.reduceEq, if_false, if_true] using h)
      have hdump := SlackMessage.dump_of_ofJson hm
      exact ⟨hc.symm, hdump, hid _ hdump rfl (by simp [get?_cons, str?])⟩
    · split at hreq <;> [rename_i hc; cases hreq]
      obtain ⟨rfl, rfl⟩ := Prod.mk.inj (Option.some.inj hreq)
      obtain ⟨email, he, rfl⟩ := Option.map_eq_some_iff.1
        (by simpa only [receive, String.reduceEq, if_false, if_true] using h)
      have hdump := Email.dump_of_ofJson he
      exact ⟨hc.symm, hdump, hid _ hdump rfl (by simp [get?_cons, str?])⟩

end Stubs

namespace EndToEnd

open Agent (ActionBody ExecuteCall Routing)

/-- How the attempt that an exchange is at can end. -/
inductive Ends (env : Env) (w : World) (x : Exchange) : Attempt → Prop
  | unreached {o} (hdue : x.due = true) (ho : ¬ o.sent) : Ends env w x o
  | lost {j o} (hj : x.line = some j) (ho : ∀ status text, ¬ o.Brings status text) (hs : o.sent)
      (hr : ¬ o.redirected) : Ends env w x o
  | answered {j a body o} (hj : x.line = some j) (hr : w.agent.requests j = some ⟨a, .answered body⟩)
      (ho : o = .response 200 (env.wire.render body) ∨ ∃ n, o = .closed 200 ((env.wire.render body).take n)) :
      Ends env w x o
  | refused {j a status text o} (hj : x.line = some j) (hr : w.agent.requests j = some ⟨a, .refused status⟩)
      (ho : o = .response status text ∨ o = .closed status text) : Ends env w x o

/-- An agent's piece that neither decides nor executes. -/
def Plain : Agent.Act → Prop
  | .obtain _ | .acquire _ | .lookUp _ | .store _ | .release _ => True
  | _ => False

/-- The steps, by what they find and what they leave. -/
inductive Moves (env : Env) (w : World) : Act → World → Prop
  | verify {act v} (hhand : ∀ i, act ≠ .handOff i) (hsettle : ∀ i r, act ≠ .settle i r)
      (hv : Embassy.step env.verify w.verify act = some v) : Moves env w (.verify act) { w with verify := v }
  | handOff {i requestedAt h v} (hi : w.verify.handlers i = some (.reserved h))
      (hv : Embassy.step env.verify w.verify (.handOff i) = some v) : Moves env w (.handOff i requestedAt)
        ({ w with verify := v }.setExchange h.order.actionId ⟨h, requestedAt, [], none⟩)
  | settle {i h x r v} (hi : w.verify.handlers i = some (.executing h))
      (hx : w.exchanges h.order.actionId = some x) (hr : x.result? env.wire.loads = some r)
      (hv : Embassy.step env.verify w.verify (.settle i r) = some v) : Moves env w (.settle i) { w with verify := v }
  | connect {a j x} (hx : w.exchanges a = some x) (hj : w.lines j = none) (hdue : x.due = true) :
      Moves env w (.connect a j)
        ({ w with lines := Function.update w.lines j (some a) }.setExchange a { x with line := some j })
  | finish {act a x o} (hx : w.exchanges a = some x) (ho : Ends env w x o) :
      Moves env w act (w.setExchange a (x.finish o))
  | arrive {j a s} (hj : w.lines j = some a) (hs : Agent.step env.resultMapMax w.agent
      (.arrive j a env.sameToken (w.validated env a).isSome) = some s) : Moves env w (.arrive j) { w with agent := s }
  | agent {act s} (hact : Plain act) (hs : Agent.step env.resultMapMax w.agent act = some s) :
      Moves env w (.agent act) { w with agent := s }
  | raise {j complete now s} (hs : Agent.step env.resultMapMax w.agent (.raise j) = some s) :
      Moves env w (.decide j complete now) { w with agent := s }
  | refuse {j complete now a l envelope payload r body s}
      (hj : w.agent.requests j = some ⟨a, .deciding l⟩) (hval : w.validated env a = some (envelope, payload))
      (hr : r.channel = none)
      (hbody : (Agent.dispatch (fun _ => (false, none)) now envelope payload r).result = .ok body)
      (hs : Agent.step env.resultMapMax w.agent (.refuse j body) = some s) :
      Moves env w (.decide j complete now) { w with
        agent := s
        decisions := w.decisions ++ (Agent.dispatch (fun _ => (false, none)) now envelope payload r).logged }
  | execute {j complete now a l envelope payload r channel s}
      (hj : w.agent.requests j = some ⟨a, .deciding l⟩) (hval : w.validated env a = some (envelope, payload))
      (hr : r.channel = some channel) (hs : Agent.step env.resultMapMax w.agent (.execute j) = some s) :
      Moves env w (.decide j complete now)
        ({ w with agent := s }.setPost j ⟨Agent.executeCall envelope payload channel, r, none, none⟩)
  | deliver {j now atTime p path body d} (hp : w.posts j = some p) (hnone : p.reference = none)
      (hreq : p.call.request = some (path, body)) (hd : Stubs.receive now atTime path body = some d) :
      Moves env w (.deliver j now atTime)
        ({ w with deliveries := w.deliveries ++ [(j, d)] }.setPost j { p with reference := some d.reference })
  | posted {j heard now a l p envelope payload reference body s}
      (hj : w.agent.requests j = some ⟨a, .executing l⟩) (hp : w.posts j = some p)
      (hval : w.validated env a = some (envelope, payload))
      (href : heard = false ∧ reference = none ∨ reference = p.reference)
      (hbody : (Agent.dispatch (fun _ => (reference.isSome, reference)) now envelope payload p.routing).result =
        .ok body)
      (hs : Agent.step env.resultMapMax w.agent (.executed j body) = some s) :
      Moves env w (.posted j heard now) ({ w with
        agent := s
        decisions := w.decisions ++
          (Agent.dispatch (fun _ => (reference.isSome, reference)) now envelope payload p.routing).logged }.setPost j
            { p with returned := some reference.isSome })

section
variable {env : Env} {w w' : World} {act : Act}

theorem exists_of_runAgent {act : Agent.Act} (h : w.runAgent env act = some w') :
    ∃ s, Agent.step env.resultMapMax w.agent act = some s ∧ w' = { w with agent := s } := by
  obtain ⟨s, hs, rfl⟩ := Option.map_eq_some_iff.1 h
  exact ⟨s, hs, rfl⟩

theorem of_answer? {a : String} {text body : List UInt8} {x : Exchange} {status : ℕ}
    (h : w.answer? env a text = some (x, status, body)) : w.exchanges a = some x ∧ ∃ j, x.line = some j ∧
      ((∃ b body', w.agent.requests j = some ⟨b, .answered body'⟩ ∧ status = 200 ∧ body = env.wire.render body') ∨
        ∃ b, w.agent.requests j = some ⟨b, .refused status⟩ ∧ body = text) := by
  obtain ⟨x', hx, h⟩ := Option.bind_eq_some_iff.1 h
  split at h <;> [rename_i b body' hr; rename_i b status' hr; cases h] <;>
    obtain ⟨j, hj, hrequest⟩ := Option.bind_eq_some_iff.1 hr <;> cases h
  · exact ⟨hx, j, hj, .inl ⟨b, body', hrequest, rfl, rfl⟩⟩
  · exact ⟨hx, j, hj, .inr ⟨b, hrequest, rfl⟩⟩

theorem Moves.of_step (hw : step env w act = some w') : Moves env w act w' := by
  cases act with
  | verify act =>
    simp only [step] at hw
    split at hw <;> [cases hw; cases hw; skip]
    rename_i hhand hsettle
    obtain ⟨v, hv, rfl⟩ := Option.map_eq_some_iff.1 hw
    exact .verify hhand hsettle hv
  | handOff i requestedAt =>
    simp only [step] at hw
    split at hw <;> [rename_i h hi; cases hw]
    obtain ⟨v, hv, rfl⟩ := Option.map_eq_some_iff.1 hw
    exact .handOff hi hv
  | settle i =>
    simp only [step] at hw
    split at hw <;> [rename_i h hi; cases hw]
    split at hw <;> [rename_i r hr; cases hw]
    obtain ⟨x, hx, hr⟩ := Option.bind_eq_some_iff.1 hr
    obtain ⟨v, hv, rfl⟩ := Option.map_eq_some_iff.1 hw
    exact .settle hi hx hr hv
  | connect a j =>
    simp only [step] at hw
    split at hw <;> [rename_i x hx hj; cases hw]
    split at hw <;> [rename_i hdue; cases hw]
    obtain rfl := Option.some.inj hw
    exact .connect hx hj hdue
  | unreached a o =>
    simp only [step] at hw
    split at hw <;> [rename_i x hx; rename_i x hx; cases hw] <;> split at hw <;>
      [rename_i hdue; cases hw; rename_i hdue; cases hw] <;> obtain rfl := Option.some.inj hw <;>
        exact .finish hx (.unreached hdue id)
  | lose a o =>
    simp only [step] at hw
    split at hw <;> [rename_i x phase hx; rename_i x phase hx; cases hw] <;> split at hw <;>
      [rename_i hline; cases hw; rename_i hline; cases hw] <;> obtain rfl := Option.some.inj hw <;>
        obtain ⟨j, hj⟩ := Option.isSome_iff_exists.1 hline <;>
          exact .finish hx (.lost hj (fun _ _ h => by cases h) trivial id)
  | answer a text =>
    obtain ⟨⟨x, status, body⟩, hanswer, hw⟩ := Option.map_eq_some_iff.1 hw
    subst hw
    obtain ⟨hx, j, hj, ⟨b, body', hr, rfl, rfl⟩ | ⟨b, hr, -⟩⟩ := of_answer? hanswer
    · exact .finish hx (.answered hj hr (.inl rfl))
    · exact .finish hx (.refused hj hr (.inl rfl))
  | cut a text n =>
    obtain ⟨⟨x, status, body⟩, hanswer, hw⟩ := Option.map_eq_some_iff.1 hw
    subst hw
    obtain ⟨hx, j, hj, ⟨b, body', hr, rfl, rfl⟩ | ⟨b, hr, -⟩⟩ := of_answer? hanswer
    · exact .finish hx (.answered hj hr (.inr ⟨n, rfl⟩))
    · exact .finish hx (.refused hj hr (.inr rfl))
  | arrive j =>
    simp only [step] at hw
    split at hw <;> [rename_i a hj; cases hw]
    obtain ⟨s, hs, rfl⟩ := exists_of_runAgent hw
    exact .arrive hj hs
  | agent act =>
    cases act with
    | obtain | acquire | lookUp | store | release =>
      obtain ⟨s, hs, rfl⟩ := exists_of_runAgent hw
      exact .agent trivial hs
    | _ => cases hw
  | decide j complete now =>
    simp only [step] at hw
    split at hw <;> [rename_i a l hj; cases hw]
    split at hw <;> [rename_i envelope payload hval; cases hw]
    split at hw
    · obtain ⟨s, hs, rfl⟩ := exists_of_runAgent hw
      exact .raise hs
    · rename_i r hroute
      split at hw
      · rename_i channel hr
        obtain ⟨v, hv, rfl⟩ := Option.map_eq_some_iff.1 hw
        obtain ⟨s, hs, rfl⟩ := exists_of_runAgent hv
        exact .execute hj hval hr hs
      · rename_i body hr hbody
        obtain ⟨v, hv, rfl⟩ := Option.map_eq_some_iff.1 hw
        obtain ⟨s, hs, rfl⟩ := exists_of_runAgent hv
        exact .refuse hj hval hr hbody hs
      · cases hw
  | deliver j now atTime =>
    simp only [step] at hw
    split at hw <;> [rename_i p hp; cases hw]
    split at hw <;> [rename_i path body hnone hreq; cases hw]
    obtain ⟨d, hd, rfl⟩ := Option.map_eq_some_iff.1 hw
    exact .deliver hp hnone hreq hd
  | posted j heard now =>
    simp only [step] at hw
    split at hw <;> [rename_i a l p hj hp; cases hw]
    split at hw <;> [rename_i envelope payload hval; cases hw]
    split at hw <;> [rename_i body hbody; cases hw]
    obtain ⟨v, hv, rfl⟩ := Option.map_eq_some_iff.1 hw
    obtain ⟨s, hs, rfl⟩ := exists_of_runAgent hv
    refine .posted hj hp hval ?_ hbody hs
    cases heard with
    | false => exact .inl ⟨rfl, rfl⟩
    | true => exact .inr rfl

theorem verify_of_moves (h : Moves env w act w') :
    w'.verify = w.verify ∨ ∃ a, Embassy.step env.verify w.verify a = some w'.verify := by
  cases h with
  | verify _ _ hv | handOff _ hv | settle _ _ _ hv => exact .inr ⟨_, hv⟩
  | _ => exact .inl rfl

theorem agent_of_moves (h : Moves env w act w') : w'.agent = w.agent ∨
    ∃ a, Agent.step env.resultMapMax w.agent a = some w'.agent ∧ (∀ i, a = .obtain i → act = .agent (.obtain i)) := by
  cases h with
  | agent _ hs => exact .inr ⟨_, hs, fun i hi => congrArg _ hi⟩
  | arrive _ hs | raise hs | refuse _ _ _ _ hs | execute _ _ _ hs | posted _ _ _ _ _ hs =>
    exact .inr ⟨_, hs, fun i hi => by cases hi⟩
  | _ => exact .inl rfl

theorem trace_prefix_of_moves (h : Moves env w act w') : w.verify.trace <+: w'.verify.trace := by
  rcases verify_of_moves h with hv | ⟨a, hv⟩
  · rw [hv]
  · exact trace_prefix_of_step hv

/-- A request that makes a new lock object finds no other one of its unstored action in use. -/
def LocksKept (w : World) : Act → Prop
  | .agent act => Agent.LockKept w.agent act
  | _ => True

theorem verify_of_reaches {ok : World → Act → Prop} (h : Reaches (step env) ok .init w) :
    Reaches (Embassy.step env.verify) anyAct .init w.verify := by
  induction h with
  | refl => exact .refl
  | tail _ hs ih =>
    obtain ⟨act, -, hs⟩ := hs
    rcases verify_of_moves (.of_step hs) with hv | ⟨a, hv⟩
    · rwa [hv]
    · exact ih.snoc trivial hv

theorem agent_of_reaches {ok : World → Act → Prop} (hok : ∀ w act, ok w act → LocksKept w act)
    (h : Reaches (step env) ok .init w) : Reaches (Agent.step env.resultMapMax) Agent.LockKept .init w.agent := by
  induction h with
  | refl => exact .refl
  | tail _ hs ih =>
    obtain ⟨act, hact, hs⟩ := hs
    rcases agent_of_moves (.of_step hs) with ha | ⟨a, ha, hobtain⟩
    · rwa [ha]
    · refine ih.snoc ?_ ha
      rintro i b rfl
      have hkept := hok _ _ hact
      rw [hobtain i rfl] at hkept
      exact hkept i b rfl

end

end EndToEnd

end Embassy
