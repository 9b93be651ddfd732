import Embassy.EndToEndSteps
import Embassy.TenantIsolation

/-!
# What verify sends

`Sent`: every connection belongs to an exchange, every exchange to an action that verify made up, reserved
budget for and handed off, and what an attempt ended with is what the agent answered on its connection.
-/

namespace Embassy
open Lib

namespace EndToEnd

open Agent (Pc)

namespace Exchange

/-- A second attempt only follows a timeout. -/
def Shape (x : Exchange) : Prop :=
  match x.line, x.ended with
  | _, [] | none, [_] => True
  | some _, [e] | none, [e, _] => retries e.2 = true
  | _, _ => False

variable {x : Exchange} {o : Attempt} {j : ℕ}

theorem line_of_due (h : x.due = true) : x.line = none := by
  unfold due at h
  split at h
  · assumption
  · assumption
  · cases h

theorem shape_connect (h : x.due = true) (j : ℕ) : Shape { x with line := some j } := by
  unfold due at h
  unfold Shape
  split at h <;> rename_i hline hended
  · rw [hended]; trivial
  · rw [hended]; exact h
  · cases h

theorem shape_finish (hx : x.Shape) (h : x.due = true ∨ x.line.isSome) (o : Attempt) : (x.finish o).Shape := by
  obtain ⟨hh, r, ended, line⟩ := x
  match line, ended with
  | none, [] | some _, [] => trivial
  | none, [e] => exact h.resolve_right (by simp)
  | some _, [e] => exact hx
  | none, e :: e' :: l => cases (h.resolve_right (by simp))
  | some _, e :: e' :: l => cases l <;> exact False.elim hx

theorem of_result {loads : List UInt8 → Except PyExc Json} {r : Except PyExc HandoffResult}
    (h : x.result? loads = some r) : x.line = none ∧ x.due = false := by
  unfold result? at h
  unfold due
  split at h
  · rename_i e hline hended
    split at h <;> [cases h; rename_i hno]
    rw [hline, hended]
    exact ⟨rfl, by simpa using hno⟩
  · rename_i e e' hline hended
    rw [hline, hended]
    exact ⟨rfl, rfl⟩
  · cases h

end Exchange

/-- What an attempt ended with is what happened on its connection. -/
def Ended (env : Env) (w : World) (a : String) : Option ℕ × Attempt → Prop
  | (none, o) => ¬ o.sent
  | (some j, o) => w.lines j = some a ∧ o.sent ∧ ¬ o.redirected ∧ ∀ status text, o.Brings status text →
      (∃ body n, w.agent.requests j = some ⟨a, .answered body⟩ ∧ status = 200 ∧
          text = (env.wire.render body).take n) ∨ w.agent.requests j = some ⟨a, .refused status⟩

theorem Ended.not_redirected {env : Env} {w : World} {a : String} {e : Option ℕ × Attempt} (h : Ended env w a e) :
    ¬ e.2.redirected := by
  match e, h with
  | (none, o), h =>
    intro hr
    cases o <;> first | exact hr | exact h trivial
  | (some _, _), h => exact h.2.2.1

/-- verify made the order up and reserved budget for it. -/
def Reserved (trace : List Call) (h : Handoff) : Prop :=
  .minted h.order ∈ trace ∧ ∃ e, .reserved h.approvedByHuman e ∈ trace ∧ e.IsOf h.order .accepted

theorem Reserved.mono {trace trace' : List Call} {h : Handoff} (hr : Reserved trace h) (hsub : trace <+: trace') :
    Reserved trace' h := by
  obtain ⟨hminted, e, he, hof⟩ := hr
  exact ⟨hsub.subset hminted, e, hsub.subset he, hof⟩

structure Sent (env : Env) (w : World) : Prop where
  own : ∀ a x, w.exchanges a = some x → x.handoff.order.actionId = a
  handed : ∀ a x, w.exchanges a = some x → .handedOff a ∈ w.verify.trace
  reserved : ∀ a x, w.exchanges a = some x → Reserved w.verify.trace x.handoff
  shape : ∀ a x, w.exchanges a = some x → x.Shape
  line : ∀ a x j, w.exchanges a = some x → x.line = some j → w.lines j = some a
  ended : ∀ a x e, w.exchanges a = some x → e ∈ x.ended → Ended env w a e
  used : ∀ j a, w.lines j = some a →
    ∃ x, w.exchanges a = some x ∧ (x.line = some j ∨ ∃ o, (some j, o) ∈ x.ended)
  arrived : ∀ j a pc, w.agent.requests j = some ⟨a, pc⟩ → w.lines j = some a

section
variable {env : Env} {w w' : World} {act : Act}

theorem sent_init : Sent env .init where
  own _ _ h := by cases h
  handed _ _ h := by cases h
  reserved _ _ h := by cases h
  shape _ _ h := by cases h
  line _ _ _ h := by cases h
  ended _ _ _ h := by cases h
  used _ _ h := by cases h
  arrived _ _ _ h := by cases h

/-- An exchange that is about to be made was not there. -/
theorem fresh_of_reserved (hs : Sent env w) (hr : Reaches (Embassy.step env.verify) anyAct .init w.verify) {i : ℕ}
    {h : Handoff} (hi : w.verify.handlers i = some (.reserved h)) : w.exchanges h.order.actionId = none := by
  cases hx : w.exchanges h.order.actionId with
  | none => rfl
  | some x =>
    have hlife := (good_of_reaches hr).inv.driven i _ _ _ hi rfl
    have hno : handoffsOf h.order.actionId w.verify.trace = [] := (summary_of_lifeOf hlife).handoffs
    have hmem : () ∈ handoffsOf h.order.actionId w.verify.trace :=
      List.mem_filterMap.2 ⟨_, List.mem_filter.2 ⟨hs.handed _ x hx, decide_eq_true rfl⟩, rfl⟩
    rw [hno] at hmem
    cases hmem

/-- What is about to be handed off was reserved. -/
theorem reserved_of_handler (hr : Reaches (Embassy.step env.verify) anyAct .init w.verify) {i : ℕ} {h : Handoff}
    (hi : w.verify.handlers i = some (.reserved h)) : Reserved w.verify.trace h := by
  have hg := good_of_reaches hr
  have hlife := hg.inv.driven i _ _ _ hi rfl
  have hres : reservationsOf h.order.actionId w.verify.trace = [()] := (summary_of_lifeOf hlife).reservations
  obtain ⟨call, hcall, hof⟩ := List.mem_filterMap.1 (hres ▸ List.mem_singleton_self ())
  cases call with
  | reserved b e =>
    have hmem := List.mem_of_mem_filter hcall
    have hacc := (hg.inv.lawful.accepted_iff hmem rfl).2 ⟨b, rfl⟩
    obtain ⟨b', heq, hb'⟩ := reserved_of_accepted hlife hcall rfl hacc
    obtain rfl := Option.some.inj hb'
    obtain ⟨rfl, -⟩ := Call.reserved.inj heq
    have hminted : Call.minted h.order ∈ callsOf h.order.actionId w.verify.trace := (minted_mem_iff hlife).2 rfl
    exact ⟨List.mem_of_mem_filter hminted, e, hmem, hacc ▸ event_isOf hlife hcall rfl⟩
  | _ => cases hof

theorem Moves.keeps (hm : Moves env w act w') (hfresh : ∀ i h, w.verify.handlers i = some (.reserved h) →
      w.exchanges h.order.actionId = none) {a : String} {x : Exchange} (hx : w.exchanges a = some x) :
    ∃ x', w'.exchanges a = some x' ∧ x'.handoff = x.handoff ∧ x'.requestedAt = x.requestedAt := by
  cases hm with
  | @handOff i requestedAt h v hi _ =>
    exact ⟨x, update_of_none (hfresh i h hi) hx, rfl, rfl⟩
  | @connect b j y hy | @finish _ b y o hy =>
    by_cases hab : a = b
    · subst hab
      obtain rfl := Option.some.inj (hx.symm.trans hy)
      exact ⟨_, Function.update_self .., rfl, rfl⟩
    · exact ⟨x, (Function.update_of_ne hab ..).trans hx, rfl, rfl⟩
  | _ => exact ⟨x, hx, rfl, rfl⟩

/-- What is over at the agent stays so. -/
def KeepsOver (w w' : World) : Prop :=
  ∀ j a pc, w.agent.requests j = some ⟨a, pc⟩ → pc.over → w'.agent.requests j = some ⟨a, pc⟩

theorem Moves.keepsOver (hm : Moves env w act w') : KeepsOver w w' := by
  intro j a pc hj hover
  rcases agent_of_moves hm with ha | ⟨b, ha, -⟩
  · rw [ha]
    exact hj
  · exact Agent.request_of_over ha hj hover

theorem Ended.mono {a : String} {e : Option ℕ × Attempt} (h : Ended env w a e)
    (hlines : ∀ j, w.lines j = some a → w'.lines j = some a) (hover : KeepsOver w w') : Ended env w' a e := by
  match e, h with
  | (none, _), h => exact h
  | (some j, _), ⟨hj, hsent, hdirect, hr⟩ =>
    refine ⟨hlines j hj, hsent, hdirect, fun status text ho => ?_⟩
    rcases hr status text ho with ⟨body, n, hbody, hst⟩ | href
    · exact .inl ⟨body, n, hover j a _ hbody trivial, hst⟩
    · exact .inr (hover j a _ href trivial)

theorem Sent.of_same (hs : Sent env w) (hx : w'.exchanges = w.exchanges) (hl : w'.lines = w.lines)
    (htrace : w.verify.trace <+: w'.verify.trace) (hover : KeepsOver w w')
    (harrived : ∀ j a pc, w'.agent.requests j = some ⟨a, pc⟩ → w.lines j = some a) : Sent env w' where
  own := hx ▸ hs.own
  handed a x h := htrace.subset (hs.handed a x (hx ▸ h))
  reserved a x h := (hs.reserved a x (hx ▸ h)).mono htrace
  shape := hx ▸ hs.shape
  line a x j h hj := hl ▸ hs.line a x j (hx ▸ h) hj
  ended a x e h he := (hs.ended a x e (hx ▸ h) he).mono (fun _ hj => hl ▸ hj) hover
  used j a h := hx ▸ hs.used j a (hl ▸ h)
  arrived j a pc h := hl ▸ harrived j a pc h

theorem Sent.setExchange {a : String} {x : Exchange} (hs : Sent env w) (hx : w.exchanges a = some x)
    (x' : Exchange) (hto : x'.handoff = x.handoff) (hshape : x'.Shape) (hv : w'.verify = w.verify)
    (ha : w'.agent = w.agent)
    (hexchanges : w'.exchanges = Function.update w.exchanges a (some x'))
    (hlines : ∀ j b, w.lines j = some b → w'.lines j = some b)
    (hline : ∀ j, x'.line = some j → w'.lines j = some a) (hended : ∀ e ∈ x'.ended, Ended env w' a e)
    (hused : ∀ j b, w'.lines j = some b → w.lines j = some b ∨ b = a ∧ x'.line = some j)
    (hstill : ∀ j, x.line = some j ∨ (∃ o, (some j, o) ∈ x.ended) →
      x'.line = some j ∨ ∃ o, (some j, o) ∈ x'.ended) : Sent env w' := by
  have hover : KeepsOver w w' := fun j b pc hj _ => ha ▸ hj
  have hsplit : ∀ b y, w'.exchanges b = some y → b = a ∧ y = x' ∨ b ≠ a ∧ w.exchanges b = some y := by
    intro b y hy
    rw [hexchanges] at hy
    exact of_update hy
  refine ⟨fun b y hy => ?_, fun b y hy => ?_, fun b y hy => ?_, fun b y hy => ?_, fun b y j hy hj => ?_,
    fun b y e hy he => ?_, fun j b hj => ?_, fun j b pc hj => hlines j b (hs.arrived j b pc (ha ▸ hj))⟩
  · rcases hsplit b y hy with ⟨rfl, rfl⟩ | ⟨-, hy⟩
    · rw [hto]; exact hs.own b x hx
    · exact hs.own b y hy
  · rw [hv]
    rcases hsplit b y hy with ⟨rfl, -⟩ | ⟨-, hy⟩
    · exact hs.handed b x hx
    · exact hs.handed b y hy
  · rw [hv]
    rcases hsplit b y hy with ⟨rfl, rfl⟩ | ⟨-, hy⟩
    · rw [hto]; exact hs.reserved b x hx
    · exact hs.reserved b y hy
  · rcases hsplit b y hy with ⟨rfl, rfl⟩ | ⟨-, hy⟩
    · exact hshape
    · exact hs.shape b y hy
  · rcases hsplit b y hy with ⟨rfl, rfl⟩ | ⟨-, hy⟩
    · exact hline j hj
    · exact hlines j b (hs.line b y j hy hj)
  · rcases hsplit b y hy with ⟨rfl, rfl⟩ | ⟨-, hy⟩
    · exact hended e he
    · exact (hs.ended b y e hy he).mono (fun j => hlines j b) hover
  · rw [hexchanges, Function.update_apply]
    rcases hused j b hj with hj | ⟨rfl, hj⟩
    · obtain ⟨y, hy, hat⟩ := hs.used j b hj
      split <;> rename_i hba
      · subst hba
        obtain rfl := Option.some.inj (hx.symm.trans hy)
        exact ⟨x', rfl, hstill j hat⟩
      · exact ⟨y, hy, hat⟩
    · rw [if_pos rfl]
      exact ⟨x', rfl, .inl hj⟩

theorem Ends.of_open {x : Exchange} {o : Attempt} (h : Ends env w x o) : x.due = true ∨ x.line.isSome := by
  cases h with
  | unreached hdue => exact .inl hdue
  | lost hj | answered hj | refused hj => exact .inr (by rw [hj]; rfl)

/-- The attempt that ends is told of its connection. -/
theorem Ends.ended {a : String} {x : Exchange} {o : Attempt} (hs : Sent env w) (hx : w.exchanges a = some x)
    (h : Ends env w x o) : Ended env w a (x.line, o) := by
  cases h with
  | unreached hdue ho =>
    rw [Exchange.line_of_due hdue]
    exact ho
  | lost hj hno hsent hr =>
    rw [hj]
    exact ⟨hs.line a x _ hx hj, hsent, hr, fun status text ho => absurd ho (hno status text)⟩
  | @answered j b body o hj hr ho =>
    have hline := hs.line a x j hx hj
    obtain rfl : b = a := Option.some.inj ((hs.arrived j b _ hr).symm.trans hline)
    rw [hj]
    obtain rfl | ⟨n, rfl⟩ := ho
    · refine ⟨hline, trivial, id, fun status text ho => .inl ⟨body, (env.wire.render body).length, hr, ?_⟩⟩
      cases ho
      exact ⟨rfl, List.take_length.symm⟩
    · refine ⟨hline, trivial, id, fun status text ho => .inl ⟨body, n, hr, ?_⟩⟩
      cases ho
      exact ⟨rfl, rfl⟩
  | @refused j b status text o hj hr ho =>
    have hline := hs.line a x j hx hj
    obtain rfl : b = a := Option.some.inj ((hs.arrived j b _ hr).symm.trans hline)
    rw [hj]
    obtain rfl | rfl := ho
    all_goals
      refine ⟨hline, trivial, id, fun status' text' ho => .inr ?_⟩
      cases ho
      exact hr

theorem Sent.arrived_of_moves (hs : Sent env w) (hm : Moves env w act w') {j : ℕ} {a : String} {pc : Pc}
    (hj : w'.agent.requests j = some ⟨a, pc⟩) : w.lines j = some a := by
  have hold : ∀ b s, Agent.step env.resultMapMax w.agent b = some s → s.requests j = some ⟨a, pc⟩ →
      (∀ i c t p, b ≠ .arrive i c t p) → w.lines j = some a := by
    intro b s hb hj hno
    rcases Agent.request_of_step hb hj with ⟨t, p, hact, -⟩ | hj | ⟨pc₀, hj, -⟩
    · exact (hno _ _ _ _ hact).elim
    · exact hs.arrived j a _ hj
    · exact hs.arrived j a _ hj
  cases hm with
  | @arrive i b s hi hb =>
    rcases Agent.request_of_step hb hj with ⟨t, p, hact, -⟩ | hj | ⟨pc₀, hj, -⟩
    · cases hact
      exact hi
    · exact hs.arrived j a _ hj
    · exact hs.arrived j a _ hj
  | agent hplain hb =>
    refine hold _ _ hb hj ?_
    rintro i c t p rfl
    exact hplain
  | raise hb | refuse _ _ _ _ hb | execute _ _ _ hb | posted _ _ _ _ _ hb =>
    exact hold _ _ hb hj fun _ _ _ _ h => by cases h
  | _ => exact hs.arrived j a pc hj

theorem Sent.step (hs : Sent env w) (hr : Reaches (Embassy.step env.verify) anyAct .init w.verify)
    (hm : Moves env w act w') : Sent env w' := by
  have hkeep := hm.keepsOver
  have htrace := trace_prefix_of_moves hm
  have harrived := fun j a pc => @Sent.arrived_of_moves env w w' act hs hm j a pc
  cases hm with
  | @handOff i requestedAt h v hi hv =>
    have hfresh := fresh_of_reserved hs hr hi
    have hreserved := reserved_of_handler hr hi
    have hhanded : Call.handedOff h.order.actionId ∈ v.trace := by
      simp only [Embassy.step, hi] at hv
      obtain rfl := Option.some.inj hv
      exact List.mem_append_right _ (List.mem_singleton_self _)
    have hsplit : ∀ b y, Function.update w.exchanges h.order.actionId (some ⟨h, requestedAt, [], none⟩) b = some y →
        b = h.order.actionId ∧ y = ⟨h, requestedAt, [], none⟩ ∨ w.exchanges b = some y :=
      fun b y hy => (of_update hy).imp_right And.right
    refine ⟨fun b y hy => ?_, fun b y hy => ?_, fun b y hy => ?_, fun b y hy => ?_, fun b y j hy hj => ?_,
      fun b y e hy he => ?_, fun j b hj => ?_, hs.arrived⟩
    · rcases hsplit b y hy with ⟨rfl, rfl⟩ | hy
      · rfl
      · exact hs.own b y hy
    · rcases hsplit b y hy with ⟨rfl, -⟩ | hy
      · exact hhanded
      · exact htrace.subset (hs.handed b y hy)
    · rcases hsplit b y hy with ⟨rfl, rfl⟩ | hy
      · exact hreserved.mono htrace
      · exact (hs.reserved b y hy).mono htrace
    · rcases hsplit b y hy with ⟨-, rfl⟩ | hy
      · trivial
      · exact hs.shape b y hy
    · rcases hsplit b y hy with ⟨-, rfl⟩ | hy
      · cases hj
      · exact hs.line b y j hy hj
    · rcases hsplit b y hy with ⟨-, rfl⟩ | hy
      · cases he
      · exact (hs.ended b y e hy he).mono (fun _ h => h) hkeep
    · obtain ⟨y, hy, hat⟩ := hs.used j b hj
      exact ⟨y, update_of_none hfresh hy, hat⟩
  | @connect a j x hx hj hdue =>
    have hlines : ∀ k b, w.lines k = some b → Function.update w.lines j (some a) k = some b :=
      fun k b hk => update_of_none hj hk
    refine hs.setExchange hx { x with line := some j } rfl (Exchange.shape_connect hdue j) rfl rfl rfl hlines
      (fun k hk => ?_) (fun e he => (hs.ended a x e hx he).mono (fun k => hlines k a) hkeep) (fun k b hk => ?_)
      fun k hk => ?_
    · obtain rfl := Option.some.inj hk
      exact Function.update_self ..
    · rcases of_update (f := w.lines) hk with ⟨hkj, hb⟩ | ⟨-, hk⟩
      · exact .inr ⟨hb, congrArg some hkj.symm⟩
      · exact .inl hk
    · rw [Exchange.line_of_due hdue] at hk
      exact .inr (hk.resolve_left (by rintro ⟨⟩))
  | @finish act a x o hx ho =>
    refine hs.setExchange hx (x.finish o) rfl (Exchange.shape_finish (hs.shape a x hx) ho.of_open o) rfl rfl rfl
      (fun _ _ h => h) (fun k hk => by cases hk) (fun e he => ?_) (fun k b hk => .inl hk) fun k hk => .inr ?_
    · rcases List.mem_append.1 he with he | he
      · exact (hs.ended a x e hx he).mono (fun _ h => h) hkeep
      · obtain rfl := List.mem_singleton.1 he
        exact (ho.ended hs hx).mono (fun _ h => h) hkeep
    · rcases hk with hk | ⟨o', hk⟩
      · exact ⟨o, List.mem_append_right _ (List.mem_singleton.2 (by rw [hk]))⟩
      · exact ⟨o', List.mem_append_left _ hk⟩
  | _ => exact hs.of_same rfl rfl htrace hkeep harrived

end

end EndToEnd

end Embassy
