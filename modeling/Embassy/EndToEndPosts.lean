import Embassy.EndToEndSent

/-!
# What the agent posts

`Ran`: a post is made by a request that cannot be made again, and what the agent answers or keeps has as
executed exactly the posts that came back accepted. `Heard` and `Logged`: the channels and the decision log have
these posts and no others.
-/

namespace Embassy
open Lib

namespace EndToEnd

open Agent (ActionBody Pc)

section
variable {env : Env} {w w' : World} {act : Act}

/-! ### What is posted -/

def Post.body (p : Post) (accepted : Bool) : ActionBody :=
  Agent.executedBody p.call.actionId p.call.channel p.routing.decidedBy accepted p.reference

theorem Post.actionId_body (p : Post) (accepted : Bool) : (p.body accepted).actionId = p.call.actionId := by
  cases accepted <;> rfl

theorem Post.status_body (p : Post) (accepted : Bool) : (p.body accepted).status = .executed ↔ accepted = true := by
  cases accepted
  · exact ⟨fun h => (by cases h), fun h => (by cases h)⟩
  · exact ⟨fun _ => rfl, fun _ => rfl⟩

/-- Where the request stands that made the post. -/
def Post.Stands (p : Post) (pc : Pc) : Prop :=
  match p.returned with
  | none => ∃ l, pc = .executing l
  | some accepted => (accepted = true → p.reference.isSome) ∧
      ((∃ l, pc = .decided l (p.body accepted)) ∨ pc.body? = some (p.body accepted))

theorem Post.stands_of_none {p : Post} (h : p.returned = none) {pc : Pc} :
    p.Stands pc ↔ ∃ l, pc = .executing l := by
  rw [Stands, h]

theorem Post.stands_of_some {p : Post} {accepted : Bool} (h : p.returned = some accepted) {pc : Pc} :
    p.Stands pc ↔ (accepted = true → p.reference.isSome) ∧
      ((∃ l, pc = .decided l (p.body accepted)) ∨ pc.body? = some (p.body accepted)) := by
  rw [Stands, h]

/-- The body is about the action, and says "executed" only for a post that was accepted. -/
def Says (w : World) (a : String) (body : ActionBody) : Prop :=
  body.actionId = a ∧ (body.status = .executed → ∃ j p, w.posts j = some p ∧ p.call.actionId = a ∧
    p.returned = some true ∧ body = p.body true)

/-- The agent takes the action. -/
def Admits (env : Env) (w : World) (a : String) : Prop := env.sameToken = true ∧ (w.validated env a).isSome

structure Ran (env : Env) (w : World) : Prop where
  admitted : ∀ j a pc, w.agent.requests j = some ⟨a, pc⟩ → (∀ n, pc ≠ .refused n) → Admits env w a
  refused : ∀ j a n, w.agent.requests j = some ⟨a, .refused n⟩ → n ≠ 200 ∧ (n = 500 ∨ ¬ Admits env w a)
  post : ∀ j p, w.posts j = some p → ∃ envelope payload channel pc,
    w.validated env p.call.actionId = some (envelope, payload) ∧
    p.call = Agent.executeCall envelope payload channel ∧ p.routing.channel = some channel ∧
    w.agent.requests j = some ⟨p.call.actionId, pc⟩ ∧ p.Stands pc
  alone : ∀ j j' p p', w.posts j = some p → w.posts j' = some p' → p.call.actionId = p'.call.actionId → j = j'
  decided : ∀ j a l body, w.agent.requests j = some ⟨a, .decided l body⟩ → Says w a body
  results : ∀ a body, w.agent.results.get? a = some body → Says w a body

theorem ran_init : Ran env .init where
  admitted _ _ _ h := by cases h
  refused _ _ _ h := by cases h
  post _ _ h := by cases h
  alone _ _ _ _ h := by cases h
  decided _ _ _ _ h := by cases h
  results _ _ h := by cases h

/-- What the agent reads of an action is what verify handed off. -/
theorem Sent.validated_spec (hs : Sent env w) {a : String} {x : Exchange} (hx : w.exchanges a = some x)
    {envelope : Agent.ActionEnvelope} {payload : Agent.OrderPayload}
    (h : w.validated env a = some (envelope, payload)) : envelope.actionId = a ∧
      envelope.clientId = x.handoff.order.clientId ∧ payload = Agent.payloadOf x.handoff.order.body := by
  rw [World.validated, hx] at h
  obtain ⟨ha, hc, hp⟩ := Agent.validateAction_eq_some h
  exact ⟨ha.trans (hs.own a x hx), hc, hp⟩

theorem Sent.exists_exchange (hs : Sent env w) {j : ℕ} {a : String} {pc : Pc}
    (hj : w.agent.requests j = some ⟨a, pc⟩) : ∃ x, w.exchanges a = some x := by
  obtain ⟨x, hx, -⟩ := hs.used j a (hs.arrived j a pc hj)
  exact ⟨x, hx⟩

/-- An action that the agent knows reads the same from then on. -/
theorem validated_of_moves (hs : Sent env w) (hr : Reaches (Embassy.step env.verify) anyAct .init w.verify)
    (hm : Moves env w act w') {j : ℕ} {a : String} {pc : Pc} (hj : w.agent.requests j = some ⟨a, pc⟩) :
    w'.validated env a = w.validated env a := by
  obtain ⟨x, hx⟩ := hs.exists_exchange hj
  obtain ⟨x', hx', hto, hat⟩ := hm.keeps (fun i h hi => fresh_of_reserved hs hr hi) hx
  rw [World.validated, World.validated, hx, hx', Option.bind_some, Option.bind_some, Exchange.envelope,
    Exchange.envelope, hto, hat]

theorem Says.mono {a : String} {body : ActionBody} (h : Says w a body)
    (hkeep : ∀ j p, w.posts j = some p → p.returned = some true → w'.posts j = some p) : Says w' a body :=
  ⟨h.1, fun hst => by
    obtain ⟨j, p, hp, hrest⟩ := h.2 hst
    exact ⟨j, p, hkeep j p hp hrest.2.1, hrest⟩⟩

namespace Ran

theorem of_same (h : Ran env w) (ha : w'.agent = w.agent) (hposts : w'.posts = w.posts)
    (hval : ∀ j a pc, w.agent.requests j = some ⟨a, pc⟩ → w'.validated env a = w.validated env a) : Ran env w' where
  admitted j a pc hj hno := by
    rw [ha] at hj
    rw [Admits, hval j a pc hj]
    exact h.admitted j a pc hj hno
  refused j a n hj := by
    rw [ha] at hj
    rw [Admits, hval j a _ hj]
    exact h.refused j a n hj
  post j p hp := by
    rw [hposts] at hp
    obtain ⟨envelope, payload, channel, pc, hv, hcall, hch, hj, hat⟩ := h.post j p hp
    rw [ha, hval j _ pc hj]
    exact ⟨envelope, payload, channel, pc, hv, hcall, hch, hj, hat⟩
  alone := hposts ▸ h.alone
  decided j a l body hj := Says.mono (h.decided j a l body (ha ▸ hj)) fun j p hp _ => hposts ▸ hp
  results a body hb := Says.mono (h.results a body (ha ▸ hb)) fun j p hp _ => hposts ▸ hp

theorem turnPost (h : Ran env w) {s : Agent.State} {posts : ℕ → Option Post} {a : String} {pc pc' : Pc} {i : ℕ}
    (hi : w.agent.requests i = some ⟨a, pc⟩) (hreq : s.requests = Function.update w.agent.requests i (some ⟨a, pc'⟩))
    (hlive : ∀ n, pc ≠ .refused n) (hrefused : ∀ n, pc' = .refused n → n = 500)
    (hposts : ∀ k q, posts k = some q → ∃ p, w.posts k = some p ∧ q.call = p.call ∧ q.routing = p.routing ∧
      (k ≠ i → q = p) ∧ (k = i → p.Stands pc → q.Stands pc'))
    (hkeep : ∀ k p, w.posts k = some p → p.returned = some true → posts k = some p)
    (hdecided : ∀ l body, pc' = .decided l body → Says { w with agent := s, posts := posts } a body)
    (hresults : ∀ c body, s.results.get? c = some body → Says w c body) :
    Ran env { w with agent := s, posts := posts } := by
  have hsplit : ∀ j c q, s.requests j = some ⟨c, q⟩ → j = i ∧ c = a ∧ q = pc' ∨ w.agent.requests j = some ⟨c, q⟩ := by
    intro j c q hj
    rw [hreq] at hj
    rcases of_update hj with ⟨hji, hself⟩ | ⟨-, hj⟩
    · obtain ⟨rfl, rfl⟩ := Agent.Request.mk.inj hself
      exact .inl ⟨hji, rfl, rfl⟩
    · exact .inr hj
  have hadmits := h.admitted i a pc hi hlive
  refine ⟨fun j c q hj hno => ?_, fun j c n hj => ?_, fun j q hq => ?_, fun j j' q q' hq hq' heq => ?_,
    fun j c l body hj => ?_, fun c body hc => Says.mono (hresults c body hc) hkeep⟩
  · rcases hsplit j c q hj with ⟨-, rfl, -⟩ | hj
    · exact hadmits
    · exact h.admitted j c q hj hno
  · rcases hsplit j c _ hj with ⟨-, -, hn⟩ | hj
    · obtain rfl := hrefused n hn.symm
      exact ⟨by decide, .inl rfl⟩
    · exact h.refused j c n hj
  · obtain ⟨p, hp, hcall, hrouting, hother, hself⟩ := hposts j q hq
    obtain ⟨envelope, payload, channel, r, hv, heq, hch, hj, hat⟩ := h.post j p hp
    rw [hcall, hrouting]
    by_cases hji : j = i
    · subst hji
      obtain ⟨ha, rfl⟩ := Agent.Request.mk.inj (Option.some.inj (hi.symm.trans hj))
      exact ⟨envelope, payload, channel, pc', hv, heq, hch, by
        rw [← ha]; exact (congrFun hreq j).trans (Function.update_self ..), hself rfl hat⟩
    · obtain rfl := hother hji
      exact ⟨envelope, payload, channel, r, hv, heq, hch,
        (congrFun hreq j).trans ((Function.update_of_ne hji ..).trans hj), hat⟩
  · obtain ⟨p, hp, hcall, -⟩ := hposts j q hq
    obtain ⟨p', hp', hcall', -⟩ := hposts j' q' hq'
    exact h.alone j j' p p' hp hp' (hcall ▸ hcall' ▸ heq)
  · rcases hsplit j c _ hj with ⟨-, rfl, hpc⟩ | hj
    · exact hdecided l body hpc.symm
    · exact Says.mono (h.decided j c l body hj) hkeep

theorem turn (h : Ran env w) {s : Agent.State} {a : String} {pc pc' : Pc} {i : ℕ}
    (hi : w.agent.requests i = some ⟨a, pc⟩) (hreq : s.requests = Function.update w.agent.requests i (some ⟨a, pc'⟩))
    (hlive : ∀ n, pc ≠ .refused n) (hpost : ∀ p, w.posts i = some p → p.Stands pc → p.Stands pc')
    (hrefused : ∀ n, pc' = .refused n → n = 500)
    (hdecided : ∀ l body, pc' = .decided l body → Says w a body)
    (hresults : ∀ c body, s.results.get? c = some body → Says w c body) : Ran env { w with agent := s } :=
  h.turnPost hi hreq hlive hrefused
    (fun _ q hq => ⟨q, hq, rfl, rfl, fun _ => rfl, fun hki hat => hpost q (hki ▸ hq) hat⟩) (fun _ _ hp _ => hp)
    hdecided hresults

theorem no_post (h : Ran env w) {j : ℕ} {a : String} {pc : Pc} (hj : w.agent.requests j = some ⟨a, pc⟩)
    (hpc : (∀ l, pc ≠ .executing l) ∧ (∀ l body, pc ≠ .decided l body) ∧ pc.body? = none) : w.posts j = none := by
  cases hp : w.posts j with
  | none => rfl
  | some p =>
    obtain ⟨-, -, -, pc', -, -, -, hj', hat⟩ := h.post j p hp
    obtain ⟨-, rfl⟩ := Agent.Request.mk.inj (Option.some.inj (hj.symm.trans hj'))
    cases hret : p.returned with
    | none =>
      obtain ⟨l, hl⟩ := (Post.stands_of_none hret).1 hat
      exact absurd hl (hpc.1 l)
    | some accepted =>
      rcases ((Post.stands_of_some hret).1 hat).2 with ⟨l, hl⟩ | hbody
      · exact absurd hl (hpc.2.1 l _)
      · rw [hpc.2.2] at hbody
        cases hbody

/-- What is in a post's way from its return to its answer. -/
theorem stands_of_decided {p : Post} {l : Agent.LockId} {body : ActionBody} {pc : Pc} (hpc : pc.body? = some body)
    (hat : p.Stands (.decided l body)) : p.Stands pc := by
  unfold Post.Stands at hat ⊢
  split at hat
  · obtain ⟨l', hl'⟩ := hat
    cases hl'
  · refine ⟨hat.1, .inr ?_⟩
    rcases hat.2 with ⟨l', hl'⟩ | hbody
    · cases hl'
      exact hpc
    · cases hbody

theorem stands_of_leaving {p : Post} {l : Agent.LockId} {body : ActionBody} {pc : Pc} (hpc : pc.body? = some body)
    (hat : p.Stands (.leaving l body)) : p.Stands pc := by
  unfold Post.Stands at hat ⊢
  split at hat
  · obtain ⟨l', hl'⟩ := hat
    cases hl'
  · refine ⟨hat.1, .inr ?_⟩
    rcases hat.2 with ⟨l', hl'⟩ | hbody
    · cases hl'
    · exact hpc.trans hbody

theorem plain (h : Ran env w) (hI : Agent.Inv w.agent) {b : Agent.Act} {s : Agent.State} (hb : Plain b)
    (hstep : Agent.step env.resultMapMax w.agent b = some s) (hmax : s.stored.card < env.resultMapMax) :
    Ran env { w with agent := s } := by
  rcases Agent.step_cases hstep with ⟨_, _, _, _, rfl, -⟩ | ⟨a, pc, pc', hi, hturn, hreq, hres⟩
  · exact hb.elim
  have hno : ∀ p, w.posts b.request = some p → ¬ ((∀ l, pc ≠ .executing l) ∧ (∀ l body, pc ≠ .decided l body) ∧
      pc.body? = none) := by
    intro p hp hpc
    rw [h.no_post hi hpc] at hp
    cases hp
  cases hturn with
  | store =>
    rename_i i l body
    have hresults := Agent.results_of_store hI hi hstep hmax
    refine h.turn hi hreq (by rintro _ ⟨⟩) (fun p _ => stands_of_decided rfl) (by rintro _ ⟨⟩) (by rintro _ _ ⟨⟩)
      fun c body' hc => ?_
    rw [hresults, Dict.get?_set] at hc
    split at hc <;> rename_i hca
    · obtain rfl := Option.some.inj hc
      exact hca ▸ h.decided _ a l body hi
    · exact h.results c body' hc
  | release =>
    exact h.turn hi hreq (by rintro _ ⟨⟩) (fun p _ => stands_of_leaving rfl) (by rintro _ ⟨⟩) (by rintro _ _ ⟨⟩)
      (hres (by rintro _ ⟨⟩) ▸ h.results)
  | obtain | acquire | found _ | missed =>
    exact h.turn hi hreq (by rintro _ ⟨⟩)
      (fun p hp _ => absurd ⟨by rintro _ ⟨⟩, by rintro _ _ ⟨⟩, rfl⟩ (hno p hp)) (by rintro _ ⟨⟩) (by rintro _ _ ⟨⟩)
      (hres (by rintro _ ⟨⟩) ▸ h.results)
  | _ => exact hb.elim

theorem arrive (h : Ran env w) {j : ℕ} {a : String} {s : Agent.State} (hstep : Agent.step env.resultMapMax w.agent
      (.arrive j a env.sameToken (w.validated env a).isSome) = some s) : Ran env { w with agent := s } := by
  rcases Agent.step_cases hstep with ⟨j', a', _, _, hact, hnone, rfl⟩ | ⟨_, _, _, _, hturn, -⟩ <;>
    [cases hact; cases hturn]
  have harrival := Agent.onArrival_cases env.sameToken (w.validated env a).isSome
  refine ⟨fun k c q hk hno => ?_, fun k c n hk => ?_, fun k p hp => ?_, h.alone, fun k c l body hk => ?_, h.results⟩
  · rcases Agent.goto_cases hk with ⟨-, rfl, rfl⟩ | ⟨-, hk⟩
    · rcases harrival with ⟨-, hadmits⟩ | ⟨n, hn, -⟩
      · exact hadmits
      · exact absurd hn (hno n)
    · exact h.admitted k c q hk hno
  · rcases Agent.goto_cases hk with ⟨-, rfl, hn⟩ | ⟨-, hk⟩
    · rcases harrival with ⟨harrived, -⟩ | ⟨m, hm, hne, hnot⟩
      · rw [harrived] at hn
        cases hn
      · rw [hm] at hn
        cases hn
        exact ⟨hne, .inr hnot⟩
    · exact h.refused k c n hk
  · obtain ⟨envelope, payload, channel, q, hv, hcall, hch, hk, hat⟩ := h.post k p hp
    have hkj : k ≠ j := by
      rintro rfl
      rw [hnone] at hk
      cases hk
    exact ⟨envelope, payload, channel, q, hv, hcall, hch, (Agent.goto_requests ..).trans (if_neg hkj |>.trans hk), hat⟩
  · rcases Agent.goto_cases hk with ⟨-, -, hpc⟩ | ⟨-, hk⟩
    · rcases harrival with ⟨harrived, -⟩ | ⟨m, hm, -⟩
      · rw [harrived] at hpc
        cases hpc
      · rw [hm] at hpc
        cases hpc
    · exact h.decided k c l body hk

theorem raise (h : Ran env w) {j : ℕ} {s : Agent.State}
    (hstep : Agent.step env.resultMapMax w.agent (.raise j) = some s) : Ran env { w with agent := s } := by
  rcases Agent.step_cases hstep with ⟨_, _, _, _, hact, -⟩ | ⟨a, pc, pc', hi, hturn, hreq, hres⟩ <;> [cases hact; skip]
  cases hturn
  refine h.turn hi hreq (by rintro _ ⟨⟩) (fun p hp _ => ?_) (fun n hn => by cases hn; rfl) (by rintro _ _ ⟨⟩)
    (hres (by rintro _ ⟨⟩) ▸ h.results)
  rw [h.no_post hi ⟨by rintro _ ⟨⟩, by rintro _ _ ⟨⟩, rfl⟩] at hp
  cases hp

theorem refuse (h : Ran env w) {j : ℕ} {s : Agent.State} {body : ActionBody}
    (hstep : Agent.step env.resultMapMax w.agent (.refuse j body) = some s) {a : String} {l : Agent.LockId}
    (hj : w.agent.requests j = some ⟨a, .deciding l⟩) (hid : body.actionId = a) (hfailed : body.status = .failed) :
    Ran env { w with agent := s } := by
  rcases Agent.step_cases hstep with ⟨_, _, _, _, hact, -⟩ | ⟨a', pc, pc', hi, hturn, hreq, hres⟩ <;> [cases hact; skip]
  cases hturn
  obtain ⟨rfl, -⟩ := Agent.Request.mk.inj (Option.some.inj (hi.symm.trans hj))
  refine h.turn hi hreq (by rintro _ ⟨⟩) (fun p hp _ => ?_) (by rintro _ ⟨⟩) (fun l' body' hpc => ?_)
    (hres (by rintro _ ⟨⟩) ▸ h.results)
  · rw [h.no_post hi ⟨by rintro _ ⟨⟩, by rintro _ _ ⟨⟩, rfl⟩] at hp
    cases hp
  · cases hpc
    exact ⟨hid, fun hst => by rw [hfailed] at hst; cases hst⟩

/-- A request that decides finds no post of its action. -/
theorem posts_ne_of_deciding (h : Ran env w) (hI : Agent.Inv w.agent) {j : ℕ} {a : String} {l : Agent.LockId}
    (hj : w.agent.requests j = some ⟨a, .deciding l⟩) {j' : ℕ} {p : Post} (hp : w.posts j' = some p) :
    p.call.actionId ≠ a := by
  rintro rfl
  obtain ⟨-, -, -, pc, -, -, -, hj', hat⟩ := h.post j' p hp
  have hnone := hI.unstored j _ _ hj trivial
  have hunstored : pc.unstored → False := by
    intro hpc
    obtain rfl := hI.eq_of_unstored hj hj' trivial hpc
    rw [h.no_post hj ⟨by rintro _ ⟨⟩, by rintro _ _ ⟨⟩, rfl⟩] at hp
    cases hp
  cases hret : p.returned with
  | none =>
    obtain ⟨l', rfl⟩ := (Post.stands_of_none hret).1 hat
    exact hunstored trivial
  | some accepted =>
    rcases ((Post.stands_of_some hret).1 hat).2 with ⟨l', rfl⟩ | hbody
    · exact hunstored trivial
    · rw [hI.body j' _ pc _ hj' hbody] at hnone
      cases hnone

theorem execute (h : Ran env w) (hI : Agent.Inv w.agent) (hs : Sent env w) {j : ℕ} {s : Agent.State}
    (hstep : Agent.step env.resultMapMax w.agent (.execute j) = some s) {a channel : String} {l : Agent.LockId}
    {envelope : Agent.ActionEnvelope} {payload : Agent.OrderPayload} {r : Agent.Routing}
    (hj : w.agent.requests j = some ⟨a, .deciding l⟩) (hval : w.validated env a = some (envelope, payload))
    (hr : r.channel = some channel) :
    Ran env ({ w with agent := s }.setPost j ⟨Agent.executeCall envelope payload channel, r, none, none⟩) := by
  rcases Agent.step_cases hstep with ⟨_, _, _, _, hact, -⟩ | ⟨a', pc, pc', hi, hturn, hreq, hres⟩ <;> [cases hact; skip]
  cases hturn
  obtain ⟨rfl, -⟩ := Agent.Request.mk.inj (Option.some.inj (hi.symm.trans hj))
  have hnone : w.posts j = none := h.no_post hi ⟨by rintro _ ⟨⟩, by rintro _ _ ⟨⟩, rfl⟩
  have hran : Ran env { w with agent := s } := by
    refine h.turn hi hreq (by rintro _ ⟨⟩) (fun p hp _ => ?_) (by rintro _ ⟨⟩) (by rintro _ _ ⟨⟩)
      (hres (by rintro _ ⟨⟩) ▸ h.results)
    cases hnone.symm.trans hp
  obtain ⟨x, hx⟩ := hs.exists_exchange hi
  have hid : envelope.actionId = a' := (hs.validated_spec hx hval).1
  have hsplit : ∀ k p, Function.update w.posts j
      (some ⟨Agent.executeCall envelope payload channel, r, none, none⟩) k = some p →
      k = j ∧ p = ⟨Agent.executeCall envelope payload channel, r, none, none⟩ ∨ k ≠ j ∧ w.posts k = some p :=
    fun k p hp => of_update hp
  have hkeep : ∀ k p, w.posts k = some p → p.returned = some true →
      Function.update w.posts j (some ⟨Agent.executeCall envelope payload channel, r, none, none⟩) k = some p :=
    fun k p hp _ => update_of_none hnone hp
  refine ⟨hran.admitted, hran.refused, fun k p hp => ?_, fun k k' p p' hp hp' heq => ?_,
    fun k c l body hk => Says.mono (hran.decided k c l body hk) hkeep,
    fun c body hc => Says.mono (hran.results c body hc) hkeep⟩
  · rcases hsplit k p hp with ⟨rfl, rfl⟩ | ⟨-, hp⟩
    · exact ⟨envelope, payload, channel, _, (congrArg (w.validated env) hid).trans hval, rfl, hr, by
        refine (congrFun hreq k).trans ((Function.update_self ..).trans ?_)
        exact congrArg some (congrArg (Agent.Request.mk · _) hid.symm), ⟨_, rfl⟩⟩
    · exact hran.post k p hp
  · rcases hsplit k p hp with ⟨hk, rfl⟩ | ⟨-, hold⟩ <;> rcases hsplit k' p' hp' with ⟨hk', rfl⟩ | ⟨-, hold'⟩
    · exact hk.trans hk'.symm
    · exact absurd (heq.symm.trans hid) (h.posts_ne_of_deciding hI hi hold')
    · exact absurd (heq.trans hid) (h.posts_ne_of_deciding hI hi hold)
    · exact h.alone k k' p p' hold hold' heq

theorem setPost (h : Ran env w) {j : ℕ} {p p' : Post} (hp : w.posts j = some p) (hcall : p'.call = p.call)
    (hrouting : p'.routing = p.routing) (hno : p.returned ≠ some true)
    (hat : ∀ pc, w.agent.requests j = some ⟨p.call.actionId, pc⟩ → p'.Stands pc) : Ran env (w.setPost j p') := by
  have hsplit : ∀ k q, (w.setPost j p').posts k = some q → k = j ∧ q = p' ∨ k ≠ j ∧ w.posts k = some q :=
    fun k q hq => of_update (f := w.posts) hq
  have hkeep : ∀ k q, w.posts k = some q → q.returned = some true → (w.setPost j p').posts k = some q :=
    fun k q hq htrue => update_of_some_ne hp (by rintro rfl; exact hno htrue) hq
  refine ⟨h.admitted, h.refused, fun k q hq => ?_, fun k k' q q' hq hq' heq => ?_,
    fun k c l body hk => Says.mono (h.decided k c l body hk) hkeep,
    fun c body hc => Says.mono (h.results c body hc) hkeep⟩
  · rcases hsplit k q hq with ⟨rfl, rfl⟩ | ⟨-, hq⟩
    · obtain ⟨envelope, payload, channel, pc, hv, heq, hch, hk, -⟩ := h.post k p hp
      rw [hcall, hrouting]
      exact ⟨envelope, payload, channel, pc, hv, heq, hch, hk, hat pc hk⟩
    · exact h.post k q hq
  · rcases hsplit k q hq with ⟨hk, rfl⟩ | ⟨-, hold⟩ <;> rcases hsplit k' q' hq' with ⟨hk', rfl⟩ | ⟨-, hold'⟩
    · exact hk.trans hk'.symm
    · exact hk.trans (h.alone j k' p q' hp hold' (hcall ▸ heq))
    · exact (h.alone k j q p hold hp (hcall ▸ heq)).trans hk'.symm
    · exact h.alone k k' q q' hold hold' heq

theorem deliver (h : Ran env w) {j : ℕ} {p : Post} (hp : w.posts j = some p) (hnone : p.reference = none)
    (reference : String) : Ran env (w.setPost j { p with reference := some reference }) := by
  obtain ⟨-, -, -, pc, -, -, -, hj, hat⟩ := h.post j p hp
  have hno : p.returned ≠ some true := by
    intro htrue
    have hsome := ((Post.stands_of_some htrue).1 hat).1 rfl
    rw [hnone] at hsome
    cases hsome
  refine h.setPost hp rfl rfl hno fun pc' hj' => ?_
  obtain ⟨-, rfl⟩ := Agent.Request.mk.inj (Option.some.inj (hj.symm.trans hj'))
  cases hret : p.returned with
  | none => exact (Post.stands_of_none rfl).2 ((Post.stands_of_none hret).1 hat)
  | some accepted =>
    cases accepted with
    | true => exact absurd hret hno
    -- the answer to a post that was not accepted has no reference
    | false => exact (@Post.stands_of_some _ false rfl _).2 ⟨fun _ => rfl, ((Post.stands_of_some hret).1 hat).2⟩

/-- A post that the agent waits for has not returned. -/
theorem returned_of_executing (h : Ran env w) {j : ℕ} {a : String} {l : Agent.LockId} {p : Post}
    (hj : w.agent.requests j = some ⟨a, .executing l⟩) (hp : w.posts j = some p) :
    a = p.call.actionId ∧ p.returned = none := by
  obtain ⟨-, -, -, pc, -, -, -, hj', hat⟩ := h.post j p hp
  obtain ⟨ha, hpc⟩ := Agent.Request.mk.inj (Option.some.inj (hj.symm.trans hj'))
  refine ⟨ha, ?_⟩
  cases hret : p.returned with
  | none => rfl
  | some accepted =>
    rcases ((Post.stands_of_some hret).1 hat).2 with ⟨l', hl'⟩ | hb
    · cases hpc.trans hl'
    · rw [← hpc] at hb
      cases hb

theorem posted (h : Ran env w) (hs : Sent env w) {j : ℕ} {s : Agent.State} {body : ActionBody} {a : String}
    {l : Agent.LockId} {p : Post} {envelope : Agent.ActionEnvelope} {payload : Agent.OrderPayload}
    {reference : Option String} {now : ℤ} (hj : w.agent.requests j = some ⟨a, .executing l⟩) (hp : w.posts j = some p)
    (hval : w.validated env a = some (envelope, payload)) (href : reference = none ∨ reference = p.reference)
    (hbody : (Agent.dispatch (fun _ => (reference.isSome, reference)) now envelope payload p.routing).result = .ok body)
    (hstep : Agent.step env.resultMapMax w.agent (.executed j body) = some s) :
    Ran env ({ w with agent := s }.setPost j { p with returned := some reference.isSome }) := by
  obtain ⟨_, _, channel, _, _, hcall, hch, _⟩ := h.post j p hp
  obtain ⟨ha, hnone⟩ := h.returned_of_executing hj hp
  obtain ⟨x, hx⟩ := hs.exists_exchange hj
  have hid := (hs.validated_spec hx hval).1
  have hchannel : p.call.channel = channel := by rw [hcall]; rfl
  -- the body that `_decide_and_execute` returns is the post's
  have hsaid : body = Post.body { p with returned := some reference.isSome } reference.isSome := by
    rw [Agent.dispatch, hch] at hbody
    obtain rfl := Except.ok.inj hbody
    rw [Post.body, hchannel, ← ha, hid]
    rcases href with rfl | rfl
    · rfl
    · rfl
  rcases Agent.step_cases hstep with ⟨_, _, _, _, hact, -⟩ | ⟨a', pc₀, pc', hi, hturn, hreq, hres⟩ <;>
    [cases hact; skip]
  cases hturn
  obtain ⟨rfl, -⟩ := Agent.Request.mk.inj (Option.some.inj (hi.symm.trans hj))
  refine h.turnPost hi hreq (by rintro _ ⟨⟩) (by rintro _ ⟨⟩) (fun k q hq => ?_) (fun k q hq htrue => ?_)
    (fun l' body' hpc' => ?_) (hres (by rintro _ ⟨⟩) ▸ h.results)
  · rcases of_update hq with ⟨hkj, rfl⟩ | ⟨hkj, hq⟩
    · refine ⟨p, hkj ▸ hp, rfl, rfl, fun hne => absurd hkj hne, fun _ _ =>
        (Post.stands_of_some rfl).2 ⟨fun hsome => ?_, ?_⟩⟩
      · rcases href with rfl | rfl
        · cases hsome
        · exact hsome
      · exact .inl ⟨_, congrArg _ hsaid⟩
    · exact ⟨q, hq, rfl, rfl, fun _ => rfl, fun hk => absurd hk hkj⟩
  · refine update_of_some_ne hp ?_ hq
    rintro rfl
    cases hnone.symm.trans htrue
  · cases hpc'
    rw [hsaid]
    refine ⟨(Post.actionId_body ..).trans ha.symm, fun hst => ?_⟩
    have haccepted := (Post.status_body ..).1 hst
    exact ⟨j, _, Function.update_self .., ha.symm, congrArg some haccepted, by rw [haccepted]⟩

theorem step (h : Ran env w) (hs : Sent env w) (hI : Agent.Inv w.agent)
    (hr : Reaches (Embassy.step env.verify) anyAct .init w.verify) (hm : Moves env w act w')
    (hmax : w'.agent.stored.card < env.resultMapMax) : Ran env w' := by
  have hval := fun j a pc => @validated_of_moves env w w' act hs hr hm j a pc
  cases hm with
  | verify | handOff | settle | connect | finish => exact h.of_same rfl rfl hval
  | arrive _ hstep => exact h.arrive hstep
  | agent hact hstep => exact h.plain hI hact hstep hmax
  | raise hstep => exact h.raise hstep
  | @refuse j complete now a l envelope payload r body s hj hv hch hbody hstep =>
    obtain ⟨x, hx⟩ := hs.exists_exchange hj
    rw [Agent.dispatch, hch] at hbody
    obtain rfl := Except.ok.inj hbody
    exact (h.refuse hstep hj (hs.validated_spec hx hv).1 rfl).of_same rfl rfl fun _ _ _ _ => rfl
  | execute hj hv hch hstep => exact h.execute hI hs hstep hj hv hch
  | deliver hp hnone _ _ => exact (h.deliver hp hnone _).of_same rfl rfl fun _ _ _ _ => rfl
  | posted hj hp hv href hbody hstep =>
    exact (h.posted hs hj hp hv (href.imp_left And.right) hbody hstep).of_same rfl rfl fun _ _ _ _ => rfl

end Ran

/-! ### What is heard and logged -/

/-- The channels recorded the posts that they answered, as they were made. -/
structure Heard (w : World) : Prop where
  sound : ∀ j d, (j, d) ∈ w.deliveries → ∃ p path, w.posts j = some p ∧ p.reference = some d.reference ∧
    d.channel = p.call.channel ∧ d.actionId? = some p.call.actionId ∧ p.call.request = some (path, d.payload)
  complete : ∀ j p, w.posts j = some p → p.reference.isSome → ∃ d, (j, d) ∈ w.deliveries
  once : (w.deliveries.map Prod.fst).Nodup

/-- The decision log says "executed" of the posts that came back accepted. -/
structure Logged (w : World) : Prop where
  sound : ∀ d ∈ w.decisions, d.executed = true → ∃ j p, w.posts j = some p ∧ p.returned = some true ∧
    d.actionId = p.call.actionId ∧ d.clientId = p.call.clientId ∧ d.item = p.call.item ∧
    d.amountCents = p.call.amountCents ∧ d.channel = some p.call.channel
  complete : ∀ j p, w.posts j = some p → p.returned = some true →
    ∃ d ∈ w.decisions, d.executed = true ∧ d.actionId = p.call.actionId
  once : ((w.decisions.filter Agent.Decision.executed).map Agent.Decision.actionId).Nodup

theorem heard_init : Heard .init := ⟨fun _ _ h => (by cases h), fun _ _ h => (by cases h), List.nodup_nil⟩

theorem logged_init : Logged .init := ⟨fun _ h => (by cases h), fun _ _ h => (by cases h), List.nodup_nil⟩

theorem Heard.of_posts (h : Heard w) (hd : w'.deliveries = w.deliveries)
    (hto : ∀ j p, w.posts j = some p → ∃ p', w'.posts j = some p' ∧ p'.call = p.call ∧ p'.reference = p.reference)
    (hof : ∀ j p', w'.posts j = some p' → p'.reference.isSome → ∃ p, w.posts j = some p ∧ p.reference.isSome) :
    Heard w' where
  sound j d hjd := by
    obtain ⟨p, path, hp, hrest⟩ := h.sound j d (hd ▸ hjd)
    obtain ⟨p', hp', hcall, href⟩ := hto j p hp
    exact ⟨p', path, hp', by rw [hcall, href]; exact hrest⟩
  complete j p' hp' hsome := by
    obtain ⟨p, hp, hsome⟩ := hof j p' hp' hsome
    exact hd ▸ h.complete j p hp hsome
  once := hd ▸ h.once

theorem Logged.of_posts (h : Logged w) {new : List Agent.Decision} (hd : w'.decisions = w.decisions ++ new)
    (hnew : ∀ d ∈ new, d.executed = false)
    (hto : ∀ j p, w.posts j = some p → ∃ p', w'.posts j = some p' ∧ p'.call = p.call ∧
      (p.returned = some true → p'.returned = some true))
    (hof : ∀ j p', w'.posts j = some p' → p'.returned = some true →
      ∃ p, w.posts j = some p ∧ p.call = p'.call ∧ p.returned = some true) : Logged w' where
  sound d hmem hex := by
    rw [hd] at hmem
    rcases List.mem_append.1 hmem with hmem | hmem
    · obtain ⟨j, p, hp, hret, hrest⟩ := h.sound d hmem hex
      obtain ⟨p', hp', hcall, hkeep⟩ := hto j p hp
      exact ⟨j, p', hp', hkeep hret, by rw [hcall]; exact hrest⟩
    · rw [hnew d hmem] at hex
      cases hex
  complete j p' hp' hret := by
    obtain ⟨p, hp, hcall, hret⟩ := hof j p' hp' hret
    obtain ⟨d, hmem, hex, hid⟩ := h.complete j p hp hret
    exact ⟨d, hd ▸ List.mem_append_left _ hmem, hex, hcall ▸ hid⟩
  once := by
    have hnil : new.filter Agent.Decision.executed = [] :=
      List.filter_eq_nil_iff.2 fun d hmem => by rw [hnew d hmem]; exact Bool.false_ne_true
    rw [hd, List.filter_append, hnil, List.append_nil]
    exact h.once

theorem Heard.step (h : Heard w) (hran : Ran env w) (hm : Moves env w act w') : Heard w' := by
  cases hm with
  | execute hj =>
    have hnone := hran.no_post hj ⟨by rintro _ ⟨⟩, by rintro _ _ ⟨⟩, rfl⟩
    refine h.of_posts rfl (fun k p hp => ⟨p, update_of_none hnone hp, rfl, rfl⟩) fun k p' hp' hsome => ?_
    rcases of_update (f := w.posts) hp' with ⟨-, rfl⟩ | ⟨-, hp'⟩
    · cases hsome
    · exact ⟨p', hp', hsome⟩
  | @posted j heard now a l p envelope payload reference body s hj hp hval href hbody hstep =>
    refine h.of_posts rfl (fun k q hq => ?_) fun k q' hq' hsome => ?_
    · by_cases hkj : k = j
      · subst hkj
        obtain rfl := Option.some.inj (hp.symm.trans hq)
        exact ⟨_, Function.update_self .., rfl, rfl⟩
      · exact ⟨q, (Function.update_of_ne hkj ..).trans hq, rfl, rfl⟩
    · rcases of_update (f := w.posts) hq' with ⟨hkj, rfl⟩ | ⟨-, hq'⟩
      · exact ⟨p, hkj ▸ hp, hsome⟩
      · exact ⟨q', hq', hsome⟩
  | @deliver j now atTime p path body d hp hnone hreq hd =>
    obtain ⟨hchannel, hpayload, hid⟩ := Stubs.receive_eq_some hreq hd
    have hnew : ∀ d', (j, d') ∉ w.deliveries := by
      intro d' hmem
      obtain ⟨q, -, hq, hsome, -⟩ := h.sound j d' hmem
      obtain rfl := Option.some.inj (hp.symm.trans hq)
      cases hnone.symm.trans hsome
    refine ⟨fun k d' hmem => ?_, fun k q hq hsome => ?_, ?_⟩
    · rcases List.mem_append.1 hmem with hold | hmem
      · obtain ⟨q, path', hq, hrest⟩ := h.sound k d' hold
        have hkj : k ≠ j := by
          rintro rfl
          exact hnew d' hold
        exact ⟨q, path', (Function.update_of_ne hkj ..).trans hq, hrest⟩
      · obtain ⟨rfl, rfl⟩ := Prod.mk.inj (List.mem_singleton.1 hmem)
        exact ⟨_, path, Function.update_self .., rfl, hchannel, hid, by rw [hpayload]; exact hreq⟩
    · rcases of_update (f := w.posts) hq with ⟨hkj, -⟩ | ⟨-, hq⟩
      · exact ⟨d, List.mem_append_right _ (List.mem_singleton.2 (by rw [hkj]))⟩
      · obtain ⟨d', hmem⟩ := h.complete k q hq hsome
        exact ⟨d', List.mem_append_left _ hmem⟩
    · change (List.map Prod.fst (w.deliveries ++ [(j, d)])).Nodup
      rw [List.map_append]
      refine List.nodup_append.2 ⟨h.once, List.nodup_singleton _, fun k hk k' hk' heq => ?_⟩
      obtain ⟨⟨k, d'⟩, hmem, rfl⟩ := List.mem_map.1 hk
      obtain rfl : k = j := heq.trans (List.mem_singleton.1 hk')
      exact hnew d' hmem
  | _ => exact h.of_posts rfl (fun _ p hp => ⟨p, hp, rfl, rfl⟩) fun _ p' hp' hsome => ⟨p', hp', hsome⟩

/-- The agent logs what became of the post it waited for. -/
theorem Logged.posted (h : Logged w) (hran : Ran env w) {j : ℕ} {now : ℤ} {a : String} {l : Agent.LockId} {p : Post}
    {envelope : Agent.ActionEnvelope} {payload : Agent.OrderPayload} {reference : Option String}
    (hj : w.agent.requests j = some ⟨a, .executing l⟩) (hp : w.posts j = some p)
    (hval : w.validated env a = some (envelope, payload)) (hd : w'.decisions = w.decisions ++
      (Agent.dispatch (fun _ => (reference.isSome, reference)) now envelope payload p.routing).logged)
    (hposts : w'.posts = Function.update w.posts j (some { p with returned := some reference.isSome })) :
    Logged w' := by
  obtain ⟨envelope', payload', channel, -, hval', hcall, hch, -⟩ := hran.post j p hp
  obtain ⟨rfl, hnone⟩ := hran.returned_of_executing hj hp
  obtain ⟨rfl, rfl⟩ := Prod.mk.inj (Option.some.inj (hval.symm.trans hval'))
  rw [Agent.dispatch, hch] at hd
  have hkeep : ∀ k q, w.posts k = some q → q.returned = some true → w'.posts k = some q := by
    intro k q hq hret
    rw [hposts]
    exact update_of_some_ne hp (by rintro rfl; cases hnone.symm.trans hret) hq
  have hself : w'.posts j = some { p with returned := some reference.isSome } := by
    rw [hposts, Function.update_self]
  have hsplit : ∀ k q, w'.posts k = some q →
      k = j ∧ q = { p with returned := some reference.isSome } ∨ w.posts k = some q := by
    intro k q hq
    rw [hposts] at hq
    exact (of_update hq).imp_right And.right
  cases hsome : reference.isSome with
  | false =>
    refine h.of_posts hd (fun d hmem => ?_) (fun k q hq => ?_) fun k q hq hret => ?_
    · obtain rfl := List.mem_singleton.1 hmem
      exact hsome
    · by_cases hkj : k = j
      · subst hkj
        obtain rfl := Option.some.inj (hp.symm.trans hq)
        exact ⟨_, hself, rfl, fun hret => by cases hnone.symm.trans hret⟩
      · refine ⟨q, ?_, rfl, id⟩
        rw [hposts, Function.update_of_ne hkj]
        exact hq
    · rcases hsplit k q hq with ⟨-, rfl⟩ | hq
      · cases hsome.symm.trans (Option.some.inj hret)
      · exact ⟨q, hq, rfl, hret⟩
  | true =>
    rw [hsome] at hself hsplit
    refine ⟨fun d hmem hex => ?_, fun k q hq hret => ?_, ?_⟩
    · rw [hd] at hmem
      rcases List.mem_append.1 hmem with hmem | hmem
      · obtain ⟨k, q, hq, hret, hrest⟩ := h.sound d hmem hex
        exact ⟨k, q, hkeep k q hq hret, hret, hrest⟩
      · obtain rfl := List.mem_singleton.1 hmem
        exact ⟨j, _, hself, rfl, by rw [hcall]; exact ⟨rfl, rfl, rfl, rfl, rfl⟩⟩
    · rw [hd]
      rcases hsplit k q hq with ⟨-, rfl⟩ | hq
      · exact ⟨_, List.mem_append_right _ (List.mem_singleton_self _), hsome, by rw [hcall]; rfl⟩
      · obtain ⟨d, hmem, hex, hid⟩ := h.complete k q hq hret
        exact ⟨d, List.mem_append_left _ hmem, hex, hid⟩
    · rw [hd, List.filter_append, List.map_append]
      refine List.nodup_append.2 ⟨h.once, (List.nodup_singleton _).sublist ((List.filter_sublist ..).map _), ?_⟩
      -- an older entry would be of another post of the action
      rintro b hb b' hb' rfl
      obtain ⟨d, hmem, rfl⟩ := List.mem_map.1 hb
      obtain ⟨hmem, hex⟩ := List.mem_filter.1 hmem
      obtain ⟨k, q, hq, hret, hid, -⟩ := h.sound d hmem hex
      obtain ⟨d', hmem', hid'⟩ := List.mem_map.1 hb'
      obtain rfl := List.mem_singleton.1 (List.mem_of_mem_filter hmem')
      obtain rfl := hran.alone k j q p hq hp (hid.symm.trans (hid'.symm.trans (by rw [hcall]; rfl)))
      obtain rfl := Option.some.inj (hp.symm.trans hq)
      cases hnone.symm.trans hret

theorem Logged.step (h : Logged w) (hran : Ran env w) (hm : Moves env w act w') : Logged w' := by
  have hsame : ∀ {new : List Agent.Decision}, w'.decisions = w.decisions ++ new → (∀ d ∈ new, d.executed = false) →
      w'.posts = w.posts → Logged w' := fun hd hnew hposts => h.of_posts hd hnew
    (fun _ p hp => ⟨p, hposts ▸ hp, rfl, id⟩) fun _ p hp hret => ⟨p, hposts ▸ hp, rfl, hret⟩
  cases hm with
  | @refuse j complete now a l envelope payload r body s hj hval hch hbody hstep =>
    refine hsame rfl (fun d hd => ?_) rfl
    rw [Agent.dispatch, hch] at hd
    obtain rfl := List.mem_singleton.1 hd
    rfl
  | execute hj =>
    have hnone := hran.no_post hj ⟨by rintro _ ⟨⟩, by rintro _ _ ⟨⟩, rfl⟩
    refine h.of_posts (List.append_nil _).symm (fun _ hd => (by cases hd))
      (fun k p hp => ⟨p, update_of_none hnone hp, rfl, id⟩) fun k p' hp' hret => ?_
    rcases of_update (f := w.posts) hp' with ⟨-, rfl⟩ | ⟨-, hp'⟩
    · cases hret
    · exact ⟨p', hp', rfl, hret⟩
  | @deliver j now atTime p path body d hp hnone hreq hd =>
    refine h.of_posts (List.append_nil _).symm (fun _ hd => (by cases hd)) (fun k q hq => ?_) fun k q' hq' hret => ?_
    · by_cases hkj : k = j
      · subst hkj
        obtain rfl := Option.some.inj (hp.symm.trans hq)
        exact ⟨_, Function.update_self .., rfl, id⟩
      · exact ⟨q, (Function.update_of_ne hkj ..).trans hq, rfl, id⟩
    · rcases of_update (f := w.posts) hq' with ⟨hkj, rfl⟩ | ⟨-, hq'⟩
      · exact ⟨p, hkj ▸ hp, rfl, hret⟩
      · exact ⟨q', hq', rfl, hret⟩
  | posted hj hp hval => exact h.posted hran hj hp hval rfl rfl
  | _ => exact hsame (List.append_nil _).symm (fun _ hd => (by cases hd)) rfl

end

end EndToEnd

end Embassy
