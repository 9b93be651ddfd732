import Embassy.EndToEndPosts

/-!
# How an exchange ends

`of_result_ok`: verify's result is its verdict on the last attempt. It repeats the answer of the agent, if there
was one (`exists_answer`). So what verify settles as executed was posted and accepted (`exists_post_of_executed`),
and what it releases was not, if the exchange is `Clear` (`returned_of_released`).
-/

namespace Embassy
open Lib Json

namespace Attempt
variable {o : Attempt}

theorem retries_iff (o : Attempt) : EndToEnd.retries o = true ↔ o.posted.timesOut := by
  unfold EndToEnd.retries
  rw [← postAction_posted]
  rcases o.kinds with hesc | ht | hl | hr | ⟨status, body, hb⟩
  · obtain ⟨e, he⟩ := postAction_escapes hesc
    rw [he]
    exact ⟨fun h => (by cases h), fun ht => absurd ht (not_timesOut_of_escapes hesc)⟩
  · rw [postAction_timesOut ht]
    exact ⟨fun _ => ht, fun _ => rfl⟩
  · rw [postAction_lost hl]
    exact ⟨fun h => (by cases h), fun ht => absurd ht (not_timesOut_of_lost hl)⟩
  · rw [hr]
    exact ⟨fun h => (by cases h), fun ht => ht.elim⟩
  · rw [postAction_brings hb]
    exact ⟨fun h => (by cases h), fun ht => absurd ht (not_timesOut_of_brings hb)⟩

theorem result_cases {loads : List UInt8 → Except PyExc Json} {a : String} {r : HandoffResult} (hd : ¬ o.redirected)
    (h : postAction o >>= verdict loads a = .ok r) : o.timesOut ∧ r = .unknown ∨ (o.lost ∨ o = refused) ∧ r = .down ∨
      ∃ status body, o.Brings status body ∧ (status ≠ 200 ∧ r = .down ∨
        status = 200 ∧ verdict loads a (.response, 200, bytesRead 200 body) = .ok r) := by
  have hkinds := o.kinds
  rw [posted_of_not_redirected hd] at hkinds
  rcases hkinds with hesc | ht | hl | rfl | ⟨status, body, hb⟩
  · obtain ⟨e, he⟩ := postAction_escapes hesc
    rw [he] at h
    cases h
  · rw [postAction_timesOut ht] at h
    cases h
    exact .inl ⟨ht, rfl⟩
  · rw [postAction_lost hl] at h
    cases h
    exact .inr (.inl ⟨.inl hl, rfl⟩)
  · cases h
    exact .inr (.inl ⟨.inr rfl, rfl⟩)
  · rw [postAction_brings hb] at h
    refine .inr (.inr ⟨status, body, hb, ?_⟩)
    by_cases hst : status = 200
    · subst hst
      exact .inr ⟨rfl, h⟩
    · refine .inl ⟨hst, ?_⟩
      change verdict loads a (.response, status, bytesRead status body) = .ok r at h
      rw [verdict, if_pos hst] at h
      exact (Except.ok.inj h).symm

end Attempt

namespace EndToEnd

open Agent (ActionBody Pc)

/-- The result repeats the agent's answer, or leaves it open. -/
def Repeats (body : ActionBody) : HandoffResult → Prop
  | .executed channel decidedBy reference => body.status = .executed ∧ body.channel = some channel ∧
    body.decidedBy = some decidedBy ∧ body.reference = some reference
  | .failed .. => body.status = .failed
  | .unknown => True
  | .down => False

theorem str?_elim (s : Option String) : Json.str? (some (s.elim .null .str)) = s := by
  cases s <;> rfl

theorem repeats_of_parseObject {body : ActionBody} {a : String} {r : HandoffResult}
    (h : parseObject body.members a = .ok (some r)) : Repeats body r := by
  simp only [parseObject, ActionBody.members, get?_cons, get?_nil, String.reduceEq, if_true, if_false,
    Option.or_none, Option.or_some, Option.getD_none, str?_elim] at h
  split at h <;> [cases h; skip]
  cases hst : body.status with
  | failed =>
    rw [hst] at h
    cases h
    exact hst
  | executed =>
    rw [hst] at h
    change parseExecuted _ _ _ = _ at h
    unfold parseExecuted at h
    rw [str?_elim, str?_elim, str?_elim] at h
    split at h <;> [cases h; skip]
    rename_i channel hchannel
    cases hin : Json.inSet validDecidedBy (some (body.decidedBy.elim .null .str)) with
    | error e =>
      rw [hin] at h
      cases h
    | ok b =>
      rw [hin] at h
      cases b with
      | false => cases h
      | true =>
        simp only [bind, Except.bind, Bool.not_true, Bool.false_eq_true, if_false] at h
        split at h <;> [skip; cases h]
        rename_i decidedBy reference hdecided href
        split at h <;> cases h
        exact ⟨hst, hchannel, hdecided, href⟩

theorem repeats_of_verdict (env : Env) {body : ActionBody} {a : String} {r : HandoffResult} {n : ℕ}
    (h : verdict env.wire.loads a (.response, 200, Attempt.bytesRead 200 ((env.wire.render body).take n)) = .ok r) :
    Repeats body r := by
  rcases verdict_ok h with rfl | ⟨data, hl, -⟩
  · trivial
  · have hbytes : Attempt.bytesRead 200 ((env.wire.render body).take n) =
        (env.wire.render body).take (min maxResponseBytes n) := List.take_take ..
    rw [hbytes] at h hl
    cases env.wire.loads_render body _ _ hl
    simp only [verdict, ne_eq, not_true_eq_false, if_false, parseOkBody, hl] at h
    cases hp : parseObject body.members a with
    | error e =>
      rw [hp] at h
      cases h
    | ok o =>
      rw [hp] at h
      cases o with
      | none =>
        cases h
        trivial
      | some r' =>
        cases h
        exact repeats_of_parseObject hp

/-! ### How an exchange ends -/

section
variable {env : Env} {w w' : World} {act : Act} {x : Exchange} {r : HandoffResult}

/-- The verdict is on the last attempt. -/
theorem Exchange.of_result_ok {loads : List UInt8 → Except PyExc Json} (hs : x.Shape)
    (h : x.result? loads = some (.ok r)) : ∃ before e, x.ended = before ++ [e] ∧
      postAction e.2 >>= verdict loads x.handoff.order.actionId = .ok r := by
  unfold Exchange.result? at h
  unfold Exchange.Shape at hs
  split at h <;> rename_i hline hended
  · rename_i e
    split at h <;> [cases h; rename_i hno]
    refine ⟨[], e, hended, ?_⟩
    have h := Option.some.inj h
    unfold executeHandoff at h
    cases hp : postAction e.2 with
    | error _ =>
      rw [hp] at h
      cases h
    | ok t =>
      rw [hp] at h
      have hne : t.1 ≠ .timeout := by
        intro ht
        refine hno ((Attempt.retries_iff e.2).2 ?_)
        rw [← Attempt.postAction_posted] at hp
        rcases e.2.kinds with hesc | ht' | hl | hr | ⟨status, body, hb⟩
        · obtain ⟨_, he⟩ := Attempt.postAction_escapes hesc
          cases hp.symm.trans he
        · exact ht'
        · rw [Attempt.postAction_lost hl] at hp
          cases hp
          cases ht
        · rw [hr] at hp
          cases hp
          cases ht
        · rw [Attempt.postAction_brings hb] at hp
          cases hp
          cases ht
      change (if t.1 = .timeout then _ else _) = _ at h
      rw [if_neg hne] at h
      exact h
  · rename_i e e'
    rw [hline, hended] at hs
    have h := Option.some.inj h
    rw [executeHandoff_of_timesOut ((Attempt.retries_iff _).1 hs)] at h
    exact ⟨[e], e', hended, h⟩
  · cases h

/-- An attempt that got an answer had a connection on which the agent gave it. -/
theorem Sent.of_brings (hs : Sent env w) {a : String} (hx : w.exchanges a = some x) {e : Option ℕ × Attempt}
    (hmem : e ∈ x.ended) {status : ℕ} {text : List UInt8} (hb : e.2.Brings status text) : ∃ k, e.1 = some k ∧
      ((∃ body n, w.agent.requests k = some ⟨a, .answered body⟩ ∧ status = 200 ∧
          text = (env.wire.render body).take n) ∨ w.agent.requests k = some ⟨a, .refused status⟩) := by
  have hended := hs.ended a x e hx hmem
  match e, hended with
  | (none, _), hended => cases hb <;> exact absurd trivial hended
  | (some k, _), hended => exact ⟨k, rfl, hended.2.2.2 status text hb⟩

/-- A request of the action came on the connection of an attempt that ended. -/
theorem Sent.of_request (hs : Sent env w) {a : String} (hx : w.exchanges a = some x) (hline : x.line = none) {j : ℕ}
    {pc : Pc} (hj : w.agent.requests j = some ⟨a, pc⟩) : ∃ o, (some j, o) ∈ x.ended ∧ o.sent := by
  obtain ⟨x', hx', hat⟩ := hs.used j a (hs.arrived j a pc hj)
  obtain rfl := Option.some.inj (hx.symm.trans hx')
  obtain ⟨o, hmem⟩ := hat.resolve_left (by rw [hline]; rintro ⟨⟩)
  exact ⟨o, hmem, (hs.ended a x _ hx hmem).2.1⟩

theorem Post.not_refused_of_stands {p : Post} {pc : Pc} (h : p.Stands pc) (n : ℕ) : pc ≠ .refused n := by
  rintro rfl
  unfold Post.Stands at h
  split at h
  · obtain ⟨l, hl⟩ := h
    cases hl
  · rcases h.2 with ⟨l, hl⟩ | hbody
    · cases hl
    · cases hbody

/-- All answers about an action are its post's, if it has one. -/
theorem Ran.post_of_answered (h : Ran env w) (hI : Agent.Inv w.agent) {i j : ℕ} {a : String} {body : ActionBody}
    {p : Post} (hi : w.agent.requests i = some ⟨a, .answered body⟩) (hp : w.posts j = some p)
    (ha : p.call.actionId = a) : ∃ accepted, p.returned = some accepted ∧ body = p.body accepted := by
  subst ha
  obtain ⟨-, -, -, pc, -, -, -, hj, hat⟩ := h.post j p hp
  have hres := hI.body i _ _ body hi rfl
  have hstored : ¬ pc.unstored := by
    intro hpc
    rw [hI.unstored j _ pc hj hpc] at hres
    cases hres
  cases hret : p.returned with
  | none =>
    obtain ⟨l, rfl⟩ := (Post.stands_of_none hret).1 hat
    exact absurd trivial hstored
  | some accepted =>
    refine ⟨accepted, rfl, ?_⟩
    rcases ((Post.stands_of_some hret).1 hat).2 with ⟨l, rfl⟩ | hbody
    · exact absurd trivial hstored
    · exact Option.some.inj (hres.symm.trans (hI.body j _ pc _ hj hbody))

/-- The agent was asked, and gave this answer to what verify made of it. -/
theorem exists_answer (hs : Sent env w) (hr : Ran env w) {a : String} (hx : w.exchanges a = some x)
    {e : Option ℕ × Attempt} (hmem : e ∈ x.ended) {text : List UInt8} (hb : e.2.Brings 200 text)
    (hv : verdict env.wire.loads x.handoff.order.actionId (.response, 200, Attempt.bytesRead 200 text) = .ok r) :
    ∃ k body, w.agent.requests k = some ⟨a, .answered body⟩ ∧ Repeats body r := by
  obtain ⟨k, -, ⟨body, n, hk, -, rfl⟩ | hk⟩ := hs.of_brings hx hmem hb
  · exact ⟨k, body, hk, repeats_of_verdict env hv⟩
  · exact absurd rfl (hr.refused k a 200 hk).1

/-- What is settled as executed was posted and accepted. -/
theorem exists_post_of_executed (hs : Sent env w) (hr : Ran env w) (hI : Agent.Inv w.agent) {a channel decidedBy
      reference : String} (hx : w.exchanges a = some x)
    (hres : x.result? env.wire.loads = some (.ok (.executed channel decidedBy reference))) :
    ∃ j p, w.posts j = some p ∧ p.call.actionId = a ∧ p.call.channel = channel ∧ p.reference = some reference := by
  obtain ⟨before, e, hended, hv⟩ := Exchange.of_result_ok (hs.shape a x hx) hres
  have hmem : e ∈ x.ended := hended ▸ List.mem_append_right _ (List.mem_singleton_self _)
  rcases Attempt.result_cases (hs.ended a x e hx hmem).not_redirected hv with
    ⟨-, h⟩ | ⟨-, h⟩ | ⟨status, text, hb, ⟨-, h⟩ | ⟨rfl, hverdict⟩⟩
  · cases h
  · cases h
  · cases h
  · obtain ⟨k, body, hk, hst, hchannel, -, href⟩ := exists_answer hs hr hx hmem hb hverdict
    obtain ⟨j, p, hp, hid, -, rfl⟩ := (hr.results a body (hI.body k a _ body hk rfl)).2 hst
    exact ⟨j, p, hp, hid, Option.some.inj hchannel, href⟩

/-- The attempt that decided was not dropped; after one that may still get through it was not refused, nor did
the agent fail on it. -/
def Exchange.Clear (x : Exchange) : Prop := ∀ before e, x.ended = before ++ [e] →
  ¬ e.2.lost ∧ ((∃ b ∈ before, b.2.sent) → e.2 ≠ .refused ∧ ∀ text, e.2 ≠ .response 500 text)

/-- A post of an action that verify released did not come back accepted, nor will it. -/
theorem returned_of_released (hs : Sent env w) (hr : Ran env w) (hI : Agent.Inv w.agent) {a : String}
    (hx : w.exchanges a = some x) (hres : x.result? env.wire.loads = some (.ok r)) (hclear : x.Clear)
    (hno : r.consumes = false) {j : ℕ} {p : Post} (hp : w.posts j = some p) (ha : p.call.actionId = a) :
    p.returned = some false := by
  obtain ⟨before, e, hended, hv⟩ := Exchange.of_result_ok (hs.shape a x hx) hres
  obtain ⟨hlost, hagain⟩ := hclear before _ hended
  obtain ⟨-, -, -, pc, -, -, -, hj, hat⟩ := hr.post j p hp
  rw [ha] at hj
  obtain ⟨o', hmem', hsent⟩ := hs.of_request hx (Exchange.of_result hres).1 hj
  have hmem : e ∈ x.ended := hended ▸ List.mem_append_right _ (List.mem_singleton_self _)
  rw [hended] at hmem'
  -- the request came on the connection of the last attempt, or of the one before
  have hcases : (∃ b ∈ before, b.2.sent) ∨ e = (some j, o') := by
    rcases List.mem_append.1 hmem' with hmem' | hmem'
    · exact .inl ⟨_, hmem', hsent⟩
    · exact .inr (List.mem_singleton.1 hmem').symm
  rcases Attempt.result_cases (hs.ended a x e hx hmem).not_redirected hv with
    ⟨-, rfl⟩ | ⟨hl | hrefused, rfl⟩ | ⟨status, text, hb, ⟨hne, rfl⟩ | ⟨rfl, hverdict⟩⟩
  · cases hno
  · exact absurd hl hlost
  · rcases hcases with hbefore | rfl
    · exact absurd hrefused (hagain hbefore).1
    · obtain rfl : o' = .refused := hrefused
      exact hsent.elim
  · obtain ⟨k, hc, ⟨_, _, -, rfl, -⟩ | hk⟩ := hs.of_brings hx hmem hb
    · exact absurd rfl hne
    · rcases (hr.refused k a status hk).2 with rfl | hadmits
      · rcases hcases with hbefore | rfl
        · exact absurd (Attempt.eq_response_of_brings hb (by decide)) ((hagain hbefore).2 text)
        · obtain rfl := Option.some.inj hc
          obtain ⟨-, rfl⟩ := Agent.Request.mk.inj (Option.some.inj (hj.symm.trans hk))
          exact absurd rfl (Post.not_refused_of_stands hat 500)
      · exact absurd (hr.admitted j a pc hj (Post.not_refused_of_stands hat)) hadmits
  · obtain ⟨k, body, hk, hrep⟩ := exists_answer hs hr hx hmem hb hverdict
    obtain ⟨accepted, hret, rfl⟩ := hr.post_of_answered hI hk hp ha
    cases accepted with
    | false => exact hret
    | true =>
      cases r with
      | executed | unknown => cases hno
      | failed => cases hrep
      | down => exact hrep.elim

end

end EndToEnd

end Embassy
