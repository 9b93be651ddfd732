import Embassy.HandoffTotal
import Embassy.JsonLoads
import Embassy.Tier3Invariant
import Embassy.Tier3Ledger

/-!
# Every reservation is settled

A reservation is on its way through one request from the locked block that makes it to the resolution
of its action (`Kept`); that request is never blocked, and once it is done there is one settlement and
one terminal resolution (`Settles`). All this rests on `execute_handoff` returning: an exception ends
the request and leaves the reservation to nobody.
-/

namespace Embassy
open Lib

/-- The reservation of the action is not resolved yet. -/
def ActionPhase.InFlight : ActionPhase → Prop
  | reserved _ | executing _ | settled .. => True
  | _ => False

/-- The call takes no action into or along its flight. -/
def Call.Quiet : Call → Prop
  | .reserved .. | .handedOff _ | .settled .. => False
  | _ => True

def Act.request? : Act → Option ℕ
  | .order i .. | .readLimit i _ | .reserve i | .turnAway i | .answerQueued i | .handOff i | .settle i _ |
    .resolve i | .approve i _ | .reject i _ | .poll i .. | .pollRead i => some i
  | .putGrant .. | .deleteGrant _ | .listApprovals => none

/-- The request works on a reservation. -/
def Handler.InFlight : Handler → Prop
  | reserved _ | executing _ | settled .. => True
  | _ => False

section
variable {env : Env} {w w' w₀ : World} {act : Act} {trace : List Call} {c : Call} {a : String} {o : Order}
  {ph : ActionPhase} {i j : ℕ} {h : Handler}

theorem Handler.inFlight_of_drives (hd : h.drives = some (o, ph)) (hf : ph.InFlight) : h.InFlight := by
  unfold drives at hd
  split at hd <;> cases hd <;> first | exact trivial | exact hf.elim

/-- A quiet call leaves every action in flight where it is, and takes none there. -/
theorem inFlight_of_quiet (hq : c.Quiet) (hf : ph.InFlight)
    (hl : lifeOf a (trace ++ [c]) = some (some (o, ph))) : lifeOf a trace = some (some (o, ph)) := by
  by_cases hc : c.about = some a
  · obtain ⟨s, -, hs⟩ := step_of_lifeOf_concat hl hc
    rcases Stage.next_cases hs with ⟨_, -, -, heq⟩ | ⟨_, _, _, -, heq, hn⟩
    · cases heq
      exact hf.elim
    · cases heq
      cases hn <;> first | exact hq.elim | exact hf.elim
  · rwa [lifeOf_append_of_ne (by simpa using hc)] at hl

/-- The actions in flight, `a₀` apart, were where they are in `w₀`. -/
def FlightsFrom (w₀ : World) (a₀ : Option String) (w : World) : Prop :=
  ∀ a o ph, some a ≠ a₀ → lifeOf a w.trace = some (some (o, ph)) → ph.InFlight →
    lifeOf a w₀.trace = some (some (o, ph))

theorem stable_flightsFrom (env : Env) (w₀ : World) (a₀ : Option String) :
    Stable env (fun c => c.Quiet ∨ c.about = a₀ ∧ a₀.isSome) (FlightsFrom w₀ a₀) := by
  have hcall : ∀ {w : World} {c : Call}, c.Quiet ∨ c.about = a₀ ∧ a₀.isSome → FlightsFrom w₀ a₀ w →
      FlightsFrom w₀ a₀ (w.call env c) := by
    intro w c hc h a o ph ha hl hf
    rcases hc with hq | ⟨hc, -⟩
    · exact h a o ph ha (inFlight_of_quiet hq hf hl) hf
    · refine h a o ph ha ?_ hf
      change lifeOf a (w.trace ++ [c]) = _ at hl
      rwa [lifeOf_append_of_ne (by simpa [hc] using ha.symm)] at hl
  exact ⟨fun h => h, fun hc _ => hcall hc, fun hc _ h => hcall hc h⟩

/-! ### Who steps -/

theorem handlers_reserveOrQueue (env : Env) (w : World) (o : Order) (limit : ℕ) :
    (w.reserveOrQueue env o limit).1.handlers = w.handlers :=
  (stable_handlers env w.handlers).reserveOrQueue 0 (fun _ _ => trivial) o limit rfl

theorem handlers_approveTier3Action (env : Env) (w : World) (a : String) :
    (w.approveTier3Action env a).1.handlers = w.handlers :=
  (stable_handlers env w.handlers).approveTier3Action 0 a (fun _ _ => trivial) rfl

theorem handlers_rejectTier3Action (env : Env) (w : World) (a : String) :
    (w.rejectTier3Action env a).1.handlers = w.handlers :=
  (stable_handlers env w.handlers).rejectTier3Action (fun _ _ => trivial) a rfl

theorem handlers_pruneTier3Pending (env : Env) (w : World) :
    (w.pruneTier3Pending env).handlers = w.handlers :=
  (stable_handlers env w.handlers).pruneTier3Pending (fun _ _ => trivial) rfl

theorem handlers_step_of_ne (hw : step env w act = some w') (hj : act.request? ≠ some j) :
    w'.handlers j = w.handlers j := by
  have hgoto : ∀ {v : World} {i : ℕ} {h : Handler}, v.handlers = w.handlers → some i ≠ some j →
      (v.goto i h).handlers j = w.handlers j := fun hv hne =>
    (Function.update_of_ne (fun heq => hne (congrArg some heq.symm)) ..).trans (congrFun hv j)
  cases act with
  | order i limited headers introspect body =>
    simp only [step] at hw
    split at hw <;> [cases hw; skip]
    split at hw
    · obtain rfl := Option.some.inj hw; exact hgoto rfl hj
    · split at hw <;> obtain rfl := Option.some.inj hw <;> exact hgoto rfl hj
  | readLimit i actionId =>
    simp only [step] at hw
    split at hw <;> [skip; cases hw]
    split at hw
    · obtain rfl := Option.some.inj hw; exact hgoto rfl hj
    · split at hw <;> [skip; cases hw]
      obtain rfl := Option.some.inj hw
      exact hgoto rfl hj
  | reserve i =>
    simp only [step] at hw
    split at hw <;> [skip; cases hw]
    obtain rfl := Option.some.inj hw
    exact hgoto (handlers_reserveOrQueue ..) hj
  | turnAway i | handOff i | resolve i =>
    simp only [step] at hw
    split at hw <;> [skip; cases hw]
    obtain rfl := Option.some.inj hw
    exact hgoto rfl hj
  | answerQueued i =>
    simp only [step] at hw
    split at hw <;> [skip; cases hw]
    split at hw <;> obtain rfl := Option.some.inj hw <;> exact hgoto rfl hj
  | settle i result =>
    simp only [step] at hw
    split at hw <;> [skip; skip; cases hw] <;> obtain rfl := Option.some.inj hw <;> exact hgoto rfl hj
  | approve i actionId =>
    simp only [step] at hw
    split at hw <;> [skip; cases hw]
    obtain rfl := Option.some.inj hw
    exact hgoto (handlers_approveTier3Action ..) hj
  | reject i actionId =>
    simp only [step] at hw
    split at hw <;> [skip; cases hw]
    obtain rfl := Option.some.inj hw
    exact hgoto (handlers_rejectTier3Action ..) hj
  | putGrant c limit => obtain rfl := Option.some.inj hw; rfl
  | deleteGrant c =>
    obtain rfl := Option.some.inj hw
    have hkeep := (stable_handlers env w.handlers).deleteTier3Grant (c := c) (fun _ _ => trivial) rfl
    exact congrFun hkeep j
  | listApprovals =>
    obtain rfl := Option.some.inj hw
    exact congrFun (handlers_pruneTier3Pending env w) j
  | poll i limited headers introspect actionId =>
    simp only [step] at hw
    split at hw <;> [cases hw; skip]
    split at hw
    · obtain rfl := Option.some.inj hw; exact hgoto rfl hj
    · split at hw <;> obtain rfl := Option.some.inj hw
      · exact hgoto rfl hj
      · exact hgoto (handlers_pruneTier3Pending env w) hj
  | pollRead i =>
    simp only [step] at hw
    split at hw <;> [skip; cases hw]
    split at hw
    · split at hw <;> obtain rfl := Option.some.inj hw <;> exact hgoto rfl hj
    · obtain rfl := Option.some.inj hw; exact hgoto rfl hj

theorem act_of_inFlight (hw : step env w act = some w') (hr : act.request? = some i)
    (hi : w.handlers i = some h) (hf : h.InFlight) :
    act = .handOff i ∨ (∃ result, act = .settle i result) ∨ act = .resolve i := by
  cases act with
  | handOff j => cases hr; exact .inl rfl
  | settle j result => cases hr; exact .inr (.inl ⟨result, rfl⟩)
  | resolve j => cases hr; exact .inr (.inr rfl)
  | putGrant | deleteGrant | listApprovals => cases hr
  | _ =>
    cases hr
    simp only [step, hi] at hw
    cases h <;> first | exact hf.elim | cases hw

/-! ### Every reservation has its request -/

/-- Some request works on every action in flight. -/
def Kept (w : World) : Prop :=
  ∀ a o ph, lifeOf a w.trace = some (some (o, ph)) → ph.InFlight →
    ∃ i h, w.handlers i = some h ∧ h.drives = some (o, ph)

theorem driver_of_step (hk : Kept w) (hw : step env w act = some w')
    (hl : lifeOf a w.trace = some (some (o, ph))) (hf : ph.InFlight)
    (hother : ∀ i h, act.request? = some i → w.handlers i = some h → h.drives ≠ some (o, ph)) :
    ∃ i h, w'.handlers i = some h ∧ h.drives = some (o, ph) := by
  obtain ⟨j, h, hj, hd⟩ := hk a o ph hl hf
  refine ⟨j, h, ?_, hd⟩
  rw [handlers_step_of_ne hw fun hr => hother j h hr hj hd]
  exact hj

theorem Kept.of_quiet (hk : Kept w) (hw : step env w act = some w') (hfl : FlightsFrom w none w')
    (hact : ∀ i h, act.request? = some i → w.handlers i = some h → ¬ h.InFlight) : Kept w' := by
  intro a o ph hl hf
  refine driver_of_step hk hw (hfl a o ph (Option.some_ne_none a) hl hf) hf fun i h hr hi hd => ?_
  exact hact i h hr hi (Handler.inFlight_of_drives hd hf)

theorem Kept.of_own (o₀ : Order) (hk : Kept w) (hw : step env w act = some w')
    (hfl : FlightsFrom w (some o₀.actionId) w')
    (hother : ∀ i h, act.request? = some i → w.handlers i = some h →
      ∀ o ph, h.drives = some (o, ph) → ph.InFlight → o = o₀)
    (hown : ∀ o ph, lifeOf o₀.actionId w'.trace = some (some (o, ph)) → ph.InFlight →
      ∃ i h, w'.handlers i = some h ∧ h.drives = some (o, ph)) : Kept w' := by
  intro a o ph hl hf
  by_cases ha : a = o₀.actionId
  · subst ha
    exact hown o ph hl hf
  · have hlw := hfl a o ph (fun h => ha (Option.some.inj h)) hl hf
    refine driver_of_step hk hw hlw hf fun i h hr hi hd => ha ?_
    rw [← hother i h hr hi o ph hd hf, order_of_lifeOf hlw]

/-- Where the request of the action is, after its step. -/
theorem driver_of_driven {o₀ : Order} {ph₀ : ActionPhase} (hg : Good env w w.handlers)
    (hi : w.handlers i = some h) (hd : h.drives = some (o₀, ph₀)) :
    ∀ o ph, lifeOf o₀.actionId w.trace = some (some (o, ph)) → ph.InFlight →
      ∃ i h, w.handlers i = some h ∧ h.drives = some (o, ph) := by
  intro o ph hl _
  have hdriven := hg.inv.driven i h o₀ ph₀ hi hd
  rw [hl] at hdriven
  cases hdriven
  exact ⟨i, h, hi, hd⟩

theorem flightsFrom_step {a₀ : Option String} (hw : step env w act = some w')
    (hQ : ∀ c, act.Makes c → c.Quiet ∨ c.about = a₀ ∧ a₀.isSome) : FlightsFrom w a₀ w' :=
  (stable_flightsFrom env w a₀).step (fun _ _ h => h) hQ (fun _ _ _ _ h _ => h) hw

theorem order_of_request {o₀ : Order} {ph₀ : ActionPhase} (hr : act.request? = some i)
    (hi : w.handlers i = some h) (hd : h.drives = some (o₀, ph₀)) :
    ∀ j h', act.request? = some j → w.handlers j = some h' →
      ∀ o ph, h'.drives = some (o, ph) → ph.InFlight → o = o₀ := by
  intro j h' hj hh' o ph hd' _
  obtain rfl := Option.some.inj (hr.symm.trans hj)
  rw [hi] at hh'
  cases hh'
  rw [hd] at hd'
  cases hd'
  rfl

theorem kept_reserve {limit : ℕ} (hg : Good env w w.handlers) (hk : Kept w)
    (hi : w.handlers i = some (.limitRead o limit)) (hw : step env w (.reserve i) = some w') : Kept w' := by
  have hg' := hg.step hw
  have heq : w' = (w.reserveOrQueue env o limit).1.goto i (w.reserveOrQueue env o limit).2 := by
    simp only [step, hi] at hw
    exact (Option.some.inj hw).symm
  by_cases hlim : w.usedCents env o.clientId + o.body.amountCents ≤ limit
  · have hreserved : (w.reserveOrQueue env o limit).2 =
        .reserved ⟨o, limit, w.usedCents env o.clientId, false⟩ := by
      unfold World.reserveOrQueue
      simp only [hlim, if_true]
    have hi' : w'.handlers i = some (.reserved ⟨o, limit, w.usedCents env o.clientId, false⟩) := by
      rw [heq, hreserved]
      exact Function.update_self ..
    refine hk.of_own o hw ?_ (order_of_request rfl hi rfl) (driver_of_driven hg' hi' rfl)
    rw [heq]
    refine (stable_flightsFrom env w (some o.actionId)).reserveOrQueue_of (fun c hc => .inl ?_)
      (fun _ now reason => .inr ⟨rfl, rfl⟩) (fun _ _ now => .inl trivial) fun _ _ _ _ h _ => h
    cases c <;> first | exact trivial | exact hc.elim
  · refine hk.of_quiet hw ?_ fun j h hj hh hf => ?_
    · rw [heq]
      refine (stable_flightsFrom env w none).reserveOrQueue_of (fun c hc => .inl ?_)
        (fun h => absurd h hlim) (fun _ _ now => .inl trivial) fun _ _ _ _ h _ => h
      cases c <;> first | exact trivial | exact hc.elim
    · obtain rfl : i = j := Option.some.inj hj
      rw [hi] at hh
      cases hh
      exact hf

theorem kept_approve {a₁ : String} (hg : Good env w w.handlers) (hk : Kept w)
    (hw : step env w (.approve i a₁) = some w') : Kept w' := by
  have hg' := hg.step hw
  have hi : w.handlers i = none := by
    simp only [step] at hw
    split at hw
    · assumption
    · cases hw
  have heq : w' = (w.approveTier3Action env a₁).1.goto i (w.approveTier3Action env a₁).2 := by
    simp only [step, hi] at hw
    exact (Option.some.inj hw).symm
  have hstable := stable_flightsFrom env w
  have hbasic : ∀ a₀ c, Call.Basic c → c.Quiet ∨ c.about = a₀ ∧ a₀.isSome := by
    intro a₀ c hc
    cases c <;> first | exact .inl trivial | exact hc.elim
  have hprune : ∀ a₀, FlightsFrom w a₀ (w.pruneTier3Pending env) := fun a₀ =>
    (hstable a₀).pruneTier3Pending (hbasic a₀) fun _ _ _ _ h _ => h
  have hidle : ∀ j h, (Act.approve i a₁).request? = some j → w.handlers j = some h → ¬ h.InFlight := by
    intro j h hj hh
    obtain rfl : i = j := Option.some.inj hj
    rw [hi] at hh
    cases hh
  unfold World.approveTier3Action at heq
  simp only at heq
  split at heq
  · exact hk.of_quiet hw (heq ▸ hprune none) hidle
  · rename_i p hp
    split at heq
    · exact hk.of_quiet hw (heq ▸ (hstable none).close (hbasic none) _ _ _ _ _ _ p (hprune none)) hidle
    · rename_i limit hlimit
      refine hk.of_own p.order hw ?_ (fun j h hj hh => absurd hh ?_)
        (driver_of_driven hg' (by rw [heq]; exact Function.update_self ..) rfl)
      · rw [heq]
        exact (hstable (some p.actionId)).read (.inr ⟨rfl, rfl⟩) ⟨rfl, trivial⟩
          ((hstable _).tick ((hstable _).call (.inl trivial) rfl (hprune _)))
      · obtain rfl : i = j := Option.some.inj hj
        rw [hi]
        rintro ⟨⟩

/-- Unless `execute_handoff` raises, no step leaves a reservation to nobody. -/
theorem Kept.step (hg : Good env w w.handlers) (hk : Kept w) (hw : step env w act = some w')
    (hret : ∀ i h e, act = .settle i (.error e) → w.handlers i ≠ some (.executing h)) : Kept w' := by
  have hg' := hg.step hw
  have hstable := stable_flightsFrom env w
  have hrefl : ∀ a₀, FlightsFrom w a₀ w := fun _ _ _ _ _ h _ => h
  cases act with
  | reserve i =>
    have hi : ∃ o limit, w.handlers i = some (.limitRead o limit) := by
      simp only [Embassy.step] at hw
      split at hw
      · exact ⟨_, _, ‹_›⟩
      · cases hw
    obtain ⟨o, limit, hi⟩ := hi
    exact kept_reserve hg hk hi hw
  | approve i a => exact kept_approve hg hk hw
  | handOff i =>
    have heq := hw
    simp only [Embassy.step] at heq
    split at heq <;> [rename_i h hi; cases heq]
    obtain rfl := Option.some.inj heq
    refine hk.of_own h.order hw ?_ (order_of_request rfl hi rfl)
      (driver_of_driven (h := .executing h) hg' (Function.update_self ..) rfl)
    exact (hstable (some h.order.actionId)).call (.inr ⟨rfl, rfl⟩) rfl (hrefl _)
  | settle i result =>
    have heq := hw
    simp only [Embassy.step] at heq
    split at heq
    · rename_i h result hi
      obtain rfl := Option.some.inj heq
      refine hk.of_own h.order hw ?_ (order_of_request rfl hi rfl)
        (driver_of_driven (h := .settled h result) hg' (Function.update_self ..) rfl)
      exact (hstable (some h.order.actionId)).call (.inr ⟨rfl, rfl⟩) rfl (hrefl _)
    · rename_i h e hi
      exact absurd hi (hret i h e rfl)
    · cases heq
  | resolve i =>
    have heq := hw
    simp only [Embassy.step] at heq
    split at heq <;> [rename_i h result hi; cases heq]
    obtain rfl := Option.some.inj heq
    refine hk.of_own h.order hw ?_ (order_of_request rfl hi rfl) fun o ph hl hf => ?_
    · exact (hstable (some h.order.actionId)).read (.inr ⟨rfl, rfl⟩) ⟨rfl, rfl⟩
        ((hstable _).tick (hrefl _))
    · -- the resolution ends the flight
      obtain ⟨s, hs, hn⟩ := step_of_lifeOf_concat hl rfl
      obtain rfl := Option.some.inj (hs.symm.trans (hg.inv.driven i _ h.order _ hi rfl))
      rcases Stage.next_cases hn with ⟨_, hcontra, -⟩ | ⟨_, _, _, heq, hph, hn⟩
      · cases hcontra
      · cases heq
        cases hph
        cases hn
        exact hf.elim
  | _ =>
    refine hk.of_quiet hw (flightsFrom_step hw fun c hc => .inl ?_) fun i h hr hi hf => ?_
    · cases c <;> first | exact trivial | exact hc.elim
    · rcases act_of_inFlight hw hr hi hf with h | ⟨_, h⟩ | h <;> cases h

/-! ### Settled once -/

/-- The action has one settlement and one terminal resolution. -/
def SettledOnce (a : String) (approvedByHuman : Bool) (trace : List Call) : Prop :=
  ∃ result, resultsOf a trace = [result] ∧
    verdictsOf a trace = [(settlement approvedByHuman result).status]

/-- The request holds the reservation of the action. -/
def Handler.Carries (a : String) (approvedByHuman : Bool) : Handler → Prop
  | reserved h | executing h | settled h _ =>
    h.order.actionId = a ∧ h.approvedByHuman = approvedByHuman
  | _ => False

/-- What its request still has to do, where `execute_handoff` gives `result`. -/
def Handler.rest (i : ℕ) (result : Except PyExc HandoffResult) : Handler → List Act
  | reserved _ => [.handOff i, .settle i result, .resolve i]
  | executing _ => [.settle i result, .resolve i]
  | settled .. => [.resolve i]
  | _ => []

theorem settledOnce_of_resolved {b : Bool} {result : HandoffResult}
    (hl : lifeOf a trace = some (some (o, .resolved b result))) : SettledOnce a b trace := by
  have hs := summary_of_lifeOf hl
  exact ⟨result, hs.results, hs.verdicts⟩

theorem settledOnce_of_settled {g : Handoff} (result : HandoffResult) (hg : Good env w w.handlers)
    (hi : w.handlers i = some (.settled g result)) :
    ∃ w', run (step env) w [.resolve i] = some w' ∧
      SettledOnce g.order.actionId g.approvedByHuman w'.trace := by
  have hl := hg.inv.driven i _ g.order _ hi rfl
  have hresolved : ∀ created r, r.IsOf g.order (settlement g.approvedByHuman result).status →
      lifeOf g.order.actionId (w.trace ++ [.resolved created r]) =
        some (some (g.order, .resolved g.approvedByHuman result)) := by
    intro created r hr
    rw [lifeOf_append_of_about (by simp [Call.about, hr.1]), hl]
    simp [run, Stage.next, ActionPhase.next, hr]
  simp only [run, step, hi, Option.bind_some]
  exact ⟨_, rfl, settledOnce_of_resolved (hresolved _ _ ⟨rfl, rfl, rfl⟩)⟩

theorem settledOnce_of_executing {g : Handoff} (result : HandoffResult) (hg : Good env w w.handlers)
    (hi : w.handlers i = some (.executing g)) :
    ∃ w', run (step env) w [.settle i (.ok result), .resolve i] = some w' ∧
      SettledOnce g.order.actionId g.approvedByHuman w'.trace := by
  have hstep : step env w (.settle i (.ok result)) =
      some ((w.call env (.settled g.order.actionId g.approvedByHuman result)).goto i
        (.settled g result)) := by
    simp only [step, hi]
  have hi' : ((w.call env (.settled g.order.actionId g.approvedByHuman result)).goto i
      (.settled g result)).handlers i = some (.settled g result) := Function.update_self ..
  obtain ⟨w', hrun, h⟩ := settledOnce_of_settled result (hg.step hstep) hi'
  exact ⟨w', by rw [run, hstep]; exact hrun, h⟩

theorem settledOnce_of_reserved {g : Handoff} (result : HandoffResult) (hg : Good env w w.handlers)
    (hi : w.handlers i = some (.reserved g)) :
    ∃ w', run (step env) w [.handOff i, .settle i (.ok result), .resolve i] = some w' ∧
      SettledOnce g.order.actionId g.approvedByHuman w'.trace := by
  have hstep : step env w (.handOff i) =
      some ((w.call env (.handedOff g.order.actionId)).goto i (.executing g)) := by
    simp only [step, hi]
  have hi' : ((w.call env (.handedOff g.order.actionId)).goto i (.executing g)).handlers i =
      some (.executing g) := Function.update_self ..
  obtain ⟨w', hrun, h⟩ := settledOnce_of_executing result (hg.step hstep) hi'
  exact ⟨w', by rw [run, hstep]; exact hrun, h⟩

/-- Every reservation is on its way through a request that can go on, or is settled and resolved, once
each. -/
structure Settles (loads : List UInt8 → Except PyExc Json) (env : Env) (w : World) : Prop where
  reservation : ∀ b e, .reserved b e ∈ w.trace → ∃ a, e.actionId = some a ∧
    ((∃ i h, w.handlers i = some h ∧ h.Carries a b ∧ verdictsOf a w.trace = []) ∨
      SettledOnce a b w.trace)
  progress : ∀ i h a b, w.handlers i = some h → h.Carries a b →
    ∀ first second, HandoffReadable loads a first second →
      ∃ w', run (step env) w (h.rest i (executeHandoff loads a first second)) = some w' ∧
        SettledOnce a b w'.trace

theorem progress_of_good {loads : List UInt8 → Except PyExc Json} {b : Bool} (hg : Good env w w.handlers)
    (hi : w.handlers i = some h) (hc : h.Carries a b) {first second : Attempt}
    (hr : HandoffReadable loads a first second) :
    ∃ w', run (step env) w (h.rest i (executeHandoff loads a first second)) = some w' ∧
      SettledOnce a b w'.trace := by
  obtain ⟨result, hresult⟩ := executeHandoff_returns_iff.2 hr
  rw [hresult]
  cases h with
  | reserved g => obtain ⟨rfl, rfl⟩ := hc; exact settledOnce_of_reserved result hg hi
  | executing g => obtain ⟨rfl, rfl⟩ := hc; exact settledOnce_of_executing result hg hi
  | settled g result => obtain ⟨rfl, rfl⟩ := hc; exact settledOnce_of_settled result hg hi
  | _ => exact hc.elim

theorem reservation_of_kept (hg : Good env w w.handlers) (hk : Kept w) {b : Bool} {e : Tier3Event}
    (he : .reserved b e ∈ w.trace) : ∃ a, e.actionId = some a ∧
      ((∃ i h, w.handlers i = some h ∧ h.Carries a b ∧ verdictsOf a w.trace = []) ∨
        SettledOnce a b w.trace) := by
  have hlawful := hg.inv.lawful
  cases ha : e.actionId with
  | none => exact (hlawful.idle _ he ha).elim
  | some a =>
    refine ⟨a, rfl, ?_⟩
    have hcall : .reserved b e ∈ callsOf a w.trace := List.mem_filter.2 ⟨he, by simp [Call.about, ha]⟩
    have hacc : e.outcome = .accepted := (hlawful.accepted_iff he rfl).2 ⟨b, rfl⟩
    obtain ⟨s, hl⟩ := hlawful.life a
    rcases s with _ | ⟨o, ph⟩
    · rw [callsOf_of_unborn hl] at hcall
      cases hcall
    · obtain ⟨b', hb, hph⟩ := reserved_of_accepted hl hcall rfl hacc
      cases hb
      have hdriver : ph.InFlight → ∃ i h, w.handlers i = some h ∧ h.drives = some (o, ph) := hk a o ph hl
      have hid := order_of_lifeOf hl
      have hverdicts := (summary_of_lifeOf hl).verdicts
      have hcarries : ∀ h : Handler, h.drives = some (o, ph) → ph.InFlight → h.Carries a b := by
        intro h hd hf
        unfold Handler.drives at hd
        split at hd <;> cases hd <;>
          first | exact ⟨hid, Option.some.inj hph⟩ | exact hf.elim
      cases ph with
      | reserved | executing | settled =>
        obtain ⟨i, h, hi, hd⟩ := hdriver trivial
        exact .inl ⟨i, h, hi, hcarries h hd trivial, hverdicts⟩
      | resolved b' result =>
        obtain rfl := Option.some.inj hph
        exact .inr (settledOnce_of_resolved hl)
      | _ => cases hph

end

/-- Every handoff of the run is a pair of attempts, and these can be read. -/
def ReadsHandoffs (loads : List UInt8 → Except PyExc Json) (w : World) : Act → Prop
  | .settle i result => ∀ h, w.handlers i = some (.executing h) → ∃ first second,
      result = executeHandoff loads h.order.actionId first second ∧
        HandoffReadable loads h.order.actionId first second
  | _ => True

theorem settles_of_reaches {loads : List UInt8 → Except PyExc Json} {env : Env} {w : World}
    (h : Reaches (step env) (ReadsHandoffs loads) .init w) : Settles loads env w := by
  have hkept : Good env w w.handlers ∧ Kept w := by
    refine h.invariant (I := fun w => Good env w w.handlers ∧ Kept w) ⟨Good.init, ?_⟩ ?_
    · rintro a o ph ⟨⟩
    · rintro v act v' ⟨hg, hk⟩ hok hv
      refine ⟨hg.step hv, hk.step hg hv ?_⟩
      rintro i g e rfl hi
      obtain ⟨first, second, heq, hread⟩ := hok g hi
      obtain ⟨result, hresult⟩ := executeHandoff_returns_iff.2 hread
      rw [hresult] at heq
      cases heq
  exact ⟨fun b e he => reservation_of_kept hkept.1 hkept.2 he,
    fun i h a b hi hc first second hr => progress_of_good hkept.1 hi hc hr⟩

theorem not_settles_of_raise {loads : List UInt8 → Except PyExc Json} {env : Env} {w w' : World} {i : ℕ}
    {g : Handoff} {e : PyExc} (hg : Good env w w.handlers) (hi : w.handlers i = some (.executing g))
    (hw : step env w (.settle i (.error e)) = some w') : ¬ Settles loads env w' := by
  intro h
  simp only [step, hi] at hw
  obtain rfl := Option.some.inj hw
  have hl := hg.inv.driven i _ g.order _ hi rfl
  obtain ⟨rows, ev, hrows, -, -, hres⟩ := rows_of_executing hl
  have hev : ev.actionId = some g.order.actionId := by
    have hmem : ev ∈ rows ++ [ev] := by simp
    rw [← hrows] at hmem
    exact of_decide_eq_true (List.mem_filter.1 hmem).2
  obtain ⟨a, ha, hcarried | ⟨result, hresults, -⟩⟩ := h.reservation g.approvedByHuman ev hres
  · obtain ⟨j, h', hj, hc, -⟩ := hcarried
    change Function.update w.handlers i _ j = some h' at hj
    rw [hev] at ha
    obtain rfl := Option.some.inj ha
    rw [Function.update_apply] at hj
    split at hj
    · cases hj
      exact hc
    · rename_i hji
      -- no other request has the action
      have hd : ∃ o ph, h'.drives = some (o, ph) ∧ o.actionId = g.order.actionId := by
        cases h' <;> first | exact hc.elim | exact ⟨_, _, rfl, hc.1⟩
      obtain ⟨o, ph, hd, hid⟩ := hd
      exact hji (hg.inv.alone j i h' _ o g.order ph _ hj hi hd rfl hid)
  · rw [hev] at ha
    obtain rfl := Option.some.inj ha
    have hnone := (summary_of_lifeOf hl).results
    change resultsOf _ w.trace = _ at hresults
    rw [hresults] at hnone
    cases hnone

theorem settles_settle_iff {loads : List UInt8 → Except PyExc Json} {env : Env} {w w' : World} {i : ℕ}
    {g : Handoff} {first second : Attempt} (h : Reaches (step env) (ReadsHandoffs loads) .init w)
    (hi : w.handlers i = some (.executing g))
    (hw : step env w (.settle i (executeHandoff loads g.order.actionId first second)) = some w') :
    Settles loads env w' ↔ HandoffReadable loads g.order.actionId first second := by
  constructor
  · intro hs
    by_contra hread
    cases hx : executeHandoff loads g.order.actionId first second with
    | ok result => exact hread (executeHandoff_returns_iff.1 ⟨result, hx⟩)
    | error e =>
      rw [hx] at hw
      exact not_settles_of_raise (good_of_reaches h) hi hw hs
  · intro hread
    refine settles_of_reaches (h.snoc (fun g' hi' => ?_) hw)
    rw [hi] at hi'
    cases hi'
    exact ⟨first, second, rfl, hread⟩

/-- The parser is exact on the bodies it can read, `execute_handoff` returns on the attempts it can
read, and while a run has no others every reservation is settled. -/
theorem settles_when_readable (limits : JsonLimits) :
    (∀ actionId body,
      ParsesExactly limits.loads actionId body ↔ BodyReadable limits.loads actionId body) ∧
    (∀ actionId first second, (∃ r, executeHandoff limits.loads actionId first second = .ok r) ↔
      HandoffReadable limits.loads actionId first second) ∧
    ∀ env w, Reaches (step env) (ReadsHandoffs limits.loads) .init w →
      Settles limits.loads env w ∧
      ∀ i g first second w', w.handlers i = some (.executing g) →
        step env w (.settle i (executeHandoff limits.loads g.order.actionId first second)) = some w' →
        (Settles limits.loads env w' ↔ HandoffReadable limits.loads g.order.actionId first second) :=
  ⟨fun _ _ => parsesExactly_iff, fun _ _ _ => executeHandoff_returns_iff, fun _ _ h =>
    ⟨settles_of_reaches h, fun _ _ _ _ _ hi hw => settles_settle_iff h hi hw⟩⟩

/-- The handoffs of the run are pairs of attempts. -/
def HandsOff (loads : List UInt8 → Except PyExc Json) (w : World) : Act → Prop
  | .settle i result => ∀ h, w.handlers i = some (.executing h) → ∃ first second,
      result = executeHandoff loads h.order.actionId first second
  | _ => True

/-- What is promised: the parser is exact, `execute_handoff` returns, every reservation is settled. -/
structure HandoffsSettle (limits : JsonLimits) : Prop where
  parses : ∀ actionId body, ParsesExactly limits.loads actionId body
  returns : ∀ actionId first second, ∃ r, executeHandoff limits.loads actionId first second = .ok r
  settles : ∀ env w, Reaches (step env) (HandsOff limits.loads) .init w → Settles limits.loads env w

/-- `{"action_id": "act-1", "status": []}` -/
def listStatus : List UInt8 :=
  [0x7B, 0x22, 0x61, 0x63, 0x74, 0x69, 0x6F, 0x6E, 0x5F, 0x69, 0x64, 0x22, 0x3A, 0x20, 0x22,
    0x61, 0x63, 0x74, 0x2D, 0x31, 0x22, 0x2C, 0x20, 0x22, 0x73, 0x74, 0x61, 0x74, 0x75, 0x73,
    0x22, 0x3A, 0x20, 0x5B, 0x5D, 0x7D]

/-- It raises `TypeError` out of `_parse_ok_body` and `execute_handoff`. -/
theorem not_handoffsSettle : ¬ HandoffsSettle ⟨1000, 4300⟩ := by
  intro h
  obtain ⟨r, hr⟩ := h.returns "act-1" (.response 200 listStatus) .refused
  have hraise : executeHandoff (JsonLimits.loads ⟨1000, 4300⟩) "act-1" (.response 200 listStatus)
      .refused = .error .typeError := rfl
  rw [hraise] at hr
  cases hr

end Embassy
