import Embassy.Tier3Invariant

/-!
# The approval queue

What the automaton says about whole runs: an action is handed off at most once and never after it
left the queue another way, every entry leaves the queue once and is audited once when it does, a
terminal resolution is for good; and no client has more entries than its cap (`QueueSafe`).
-/

namespace Embassy
open Lib

def Entered (a : String) (trace : List Call) : Prop := ∃ p, .queued p ∈ trace ∧ p.actionId = a

/-- What the life cycle of the approval queue promises in a state `w` of a run. -/
structure QueueSafe (env : Env) (ok : World → Act → Prop) (w : World) : Prop where
  /-- At most one handoff, ... -/
  handedOff_once : ∀ a, (handoffsOf a w.trace).length ≤ 1
  /-- ... of an action that never left the queue or left it by approval, and was not rejected, ... -/
  handedOff_only : ∀ a, handoffsOf a w.trace ≠ [] →
    (exitsOf a w.trace = [] ∧ outcomesOf a w.trace = [.accepted]) ∨
      (exitsOf a w.trace = [.approve] ∧ outcomesOf a w.trace = [.queued, .accepted])
  /-- ... in time. -/
  approved_in_time : ∀ now p, .popped .approve now p ∈ w.trace → now ≤ p.expiresAt
  /-- What entered the queue is still there, or left it once and was audited once for it. -/
  leaves_once : ∀ a, Entered a w.trace →
    (a ∈ w.store.tier3Pending.keys ∧ exitsOf a w.trace = [] ∧ outcomesOf a w.trace = [.queued]) ∨
      (a ∉ w.store.tier3Pending.keys ∧ ∃ exit outcome, exitsOf a w.trace = [exit] ∧
        outcomesOf a w.trace = [.queued, outcome] ∧
        (outcome = exit.outcome ∨ exit = .approve ∧ outcome = .accepted))
  /-- At most one terminal resolution, ... -/
  resolved_once : ∀ a, (verdictsOf a w.trace).length ≤ 1
  /-- ... which never changes. -/
  resolved_for_good : ∀ a r w' r', w.store.tier3Resolutions.get? a = some r → r.status ≠ .queued →
    Reaches (step env) ok w w' → w'.store.tier3Resolutions.get? a = some r' → r'.status = r.status
  /-- The queue is bounded for each client. -/
  bounded : ∀ c, (w.pendingOf c).length ≤ env.pendingMaxPerClient

/-! ### What the phases say -/

section
variable {a : String} {trace cs : List Call} {s : Stage} {o : Order} {ph : ActionPhase}

theorem length_handoffs_le_one (h : Summary a trace s) : (handoffsOf a trace).length ≤ 1 := by
  rw [h.handoffs]
  match s with
  | none => exact Nat.zero_le _
  | some (o, ph) => cases ph <;> simp [Stage.show, ActionPhase.handoffs]

theorem length_verdicts_le_one (h : Summary a trace s) : (verdictsOf a trace).length ≤ 1 := by
  rw [h.verdicts]
  match s with
  | none => exact Nat.zero_le _
  | some (o, ph) => cases ph <;> simp [Stage.show, ActionPhase.verdicts]

theorem handedOff_only (h : Summary a trace s) (hne : handoffsOf a trace ≠ []) :
    (exitsOf a trace = [] ∧ outcomesOf a trace = [.accepted]) ∨
      (exitsOf a trace = [.approve] ∧ outcomesOf a trace = [.queued, .accepted]) := by
  rw [h.handoffs] at hne
  rw [h.exits, h.outcomes]
  match s with
  | none => exact absurd rfl hne
  | some (o, ph) =>
    cases ph with
    | executing b | settled b | resolved b =>
      cases b
      · exact .inl ⟨rfl, rfl⟩
      · exact .inr ⟨rfl, rfl⟩
    | _ => exact absurd rfl hne

theorem entries_of_entered (h : Entered a trace) : entriesOf a trace ≠ [] := by
  obtain ⟨p, hp, rfl⟩ := h
  intro hnil
  have hmem : () ∈ entriesOf p.actionId trace :=
    List.mem_filterMap.2 ⟨_, List.mem_filter.2 ⟨hp, by simp [Call.about]⟩, rfl⟩
  rw [hnil] at hmem
  cases hmem

/-- A queued action at rest: waiting, or gone by one exit. -/
theorem waiting_or_left (h : Summary a trace s) (hent : Entered a trace)
    (hrest : ∀ o ph, s = some (o, ph) → ph.AtRest) :
    (∃ o p, s = some (o, .pending p)) ∧ exitsOf a trace = [] ∧ outcomesOf a trace = [.queued] ∨
      (∀ o p, s ≠ some (o, .pending p)) ∧ ∃ exit outcome, exitsOf a trace = [exit] ∧
        outcomesOf a trace = [.queued, outcome] ∧
        (outcome = exit.outcome ∨ exit = .approve ∧ outcome = .accepted) := by
  have hne := entries_of_entered hent
  rw [h.entries] at hne
  rw [h.exits, h.outcomes]
  match s with
  | none => exact absurd rfl hne
  | some (o, ph) =>
    have hrest := hrest o ph rfl
    cases ph with
    | minted | turnedAway => exact absurd rfl hne
    | entering | entered | leaving | closing => exact hrest.elim
    | pending p => exact .inl ⟨⟨o, p, rfl⟩, rfl, rfl⟩
    | left exit => exact .inr ⟨(by rintro _ _ ⟨⟩), exit, _, rfl, rfl, .inl rfl⟩
    | reserved b | executing b | settled b | resolved b =>
      cases b
      · exact absurd rfl hne
      · exact .inr ⟨(by rintro _ _ ⟨⟩), .approve, _, rfl, rfl, .inr ⟨rfl, rfl⟩⟩

theorem approved_in_time (h : Lawful trace) {now : ℤ} {p : Tier3PendingAction}
    (hp : .popped .approve now p ∈ trace) : now ≤ p.expiresAt := by
  obtain ⟨s, hs⟩ := h.life p.actionId
  obtain ⟨s₁, s₂, hstep⟩ := exists_step_of_mem_run hs
    (List.mem_filter.2 ⟨hp, by simp [Call.about]⟩ : _ ∈ callsOf p.actionId trace)
  rcases Stage.next_cases hstep with ⟨_, -, hcontra, -⟩ | ⟨o, ph, ph', rfl, rfl, hn⟩
  · cases hcontra
  · cases hn with
    | pop hlt => exact not_lt.1 fun hlt' => by cases hlt.1 hlt'

theorem lifeOf_of_final (hlife : lifeOf a trace = some (some (o, ph)))
    (hfinal : ∀ c ph', ¬ ActionPhase.Next o ph c ph') (h : Lawful (trace ++ cs)) :
    lifeOf a (trace ++ cs) = some (some (o, ph)) := by
  obtain ⟨s, hs⟩ := h.life a
  rw [lifeOf, callsOf_append, run_append] at hs ⊢
  rw [lifeOf] at hlife
  rw [hlife] at hs ⊢
  cases hc : callsOf a cs with
  | nil => rfl
  | cons c cs =>
    rw [hc, Option.bind_some] at hs
    obtain ⟨s', hs', -⟩ := Option.bind_eq_some_iff.1 hs
    rcases Stage.next_cases hs' with ⟨_, hcontra, -⟩ | ⟨_, _, ph', heq, -, hn⟩
    · cases hcontra
    · cases heq
      exact absurd hn (hfinal c ph')

theorem final_of_status {st : ResolutionStatus} (hst : ph.status? = some st) (hne : st ≠ .queued) :
    ∀ c ph', ¬ ActionPhase.Next o ph c ph' := by
  intro c ph' hn
  cases hn with
  | pop | drop | approve | leave => exact hne (Option.some.inj hst).symm
  | @handOff b | @settle b | @resolve b =>
    cases b
    · cases hst
    · exact hne (Option.some.inj hst).symm
  | _ => cases hst

end

/-! ### The cap -/

section
variable {env : Env} {w w' : World} {act : Act} {c : String}

/-- No client has more entries than the cap. -/
def Capped (env : Env) (w : World) : Prop := ∀ c, (w.pendingOf c).length ≤ env.pendingMaxPerClient

theorem pendingOf_erase_sublist (a : String) (w : World) :
    ((w.store.tier3Pending.erase a).values.filter fun p => p.clientId = c).Sublist (w.pendingOf c) :=
  (List.Sublist.map _ List.filter_sublist).filter _

theorem stable_capped : Stable env (fun c => ∀ p, c ≠ .queued p) (Capped env) where
  tick h := h
  call {w c} hc _ h := by
    cases c with
    | queued p => exact absurd rfl (hc p)
    | popped exit now p =>
      exact fun c => (pendingOf_erase_sublist p.actionId w).length_le.trans (h c)
    | _ => exact h
  read {w c} hc _ h := by
    cases c with
    | queued p => exact absurd rfl (hc p)
    | popped exit now p =>
      exact fun c => (pendingOf_erase_sublist p.actionId w).length_le.trans (h c)
    | _ => exact h

theorem not_queued_of_basic {c : Call} (h : c.Basic) : ∀ p, c ≠ .queued p := by
  rintro p rfl; exact h

theorem pendingOf_queued {w : World} {p : Tier3PendingAction}
    (hp : w.store.tier3Pending.get? p.actionId = none) :
    (w.call env (.queued p)).pendingOf c =
      w.pendingOf c ++ if p.clientId = c then [p] else [] := by
  have hset := Dict.entries_set_of_not_mem w.store.tier3Pending p (Dict.get?_eq_none_iff.1 hp)
  show (((w.store.tier3Pending.set p.actionId p).entries.map Prod.snd).filter fun q => q.clientId = c) = _
  rw [hset, List.map_append, List.filter_append]
  by_cases hc : p.clientId = c <;> simp [hc, World.pendingOf, Dict.values]

theorem capped_reserveOrQueue {handlers : ℕ → Option Handler} {o : Order} (hg : Good env w handlers)
    (ho : lifeOf o.actionId w.trace = some (some (o, .minted))) (limit : ℕ) (h : Capped env w) :
    Capped env (w.reserveOrQueue env o limit).1 := by
  have hprune : Capped env (w.tick.pruneTier3Pending env) :=
    stable_capped.pruneTier3Pending (fun _ => not_queued_of_basic) h
  obtain ⟨hg', hlife⟩ := hg.tick.prune
  unfold World.reserveOrQueue
  simp only
  split
  · exact h
  · split
    · exact hprune
    · rename_i hfull
      have hnone : (w.tick.pruneTier3Pending env).store.tier3Pending.get? o.actionId = none := by
        rw [Option.eq_none_iff_forall_ne_some]
        intro p hp
        have hnot : ∀ p, w.tick.store.tier3Pending.get? o.actionId ≠ some p := fun p hp => by
          rw [hg.tick.pending_iff] at hp; cases ho.symm.trans hp
        have hl := hg'.pending_iff.1 hp
        rw [hlife _ hnot] at hl
        cases ho.symm.trans hl
      generalize w.tick.pruneTier3Pending env = v at *
      intro c
      have hv := hprune c
      let p := queuedAction env.toTier3Config (v.now env) o.actionId o.clientId o.body
      change ((v.call env (.queued p)).pendingOf c).length ≤ _
      rw [pendingOf_queued (p := p) hnone]
      by_cases hc : p.clientId = c
      · have hlt : (v.pendingOf c).length < env.pendingMaxPerClient := by
          rw [← hc]; exact not_le.1 hfull
        rw [if_pos hc, List.length_append]
        exact hlt
      · simpa [hc] using hv

theorem capped_step (hg : Good env w w.handlers) (h : Capped env w) (hw : step env w act = some w') :
    Capped env w' := by
  by_cases hact : ∃ i, act = .reserve i
  · obtain ⟨i, rfl⟩ := hact
    simp only [step] at hw
    split at hw <;> [rename_i o limit hi; cases hw]
    obtain rfl := Option.some.inj hw
    exact capped_reserveOrQueue hg (hg.inv.driven i _ o _ hi rfl) limit h
  · refine stable_capped.step (fun _ _ h => h) (fun c hc p => ?_) h hw
    rintro rfl
    cases act <;> first | exact hc | exact hact ⟨_, rfl⟩

end

/-- The approval queue's life cycle holds in every state of every run. -/
theorem queueSafe_of_reaches (env : Env) (w : World) (h : Reaches (step env) anyAct .init w) :
    QueueSafe env anyAct w := by
  have hg := good_of_reaches h
  have hsum : ∀ a, ∃ s, lifeOf a w.trace = some s ∧ Summary a w.trace s := fun a => by
    obtain ⟨s, hs⟩ := hg.inv.lawful.life a; exact ⟨s, hs, summary_of_lifeOf hs⟩
  have hcap : Good env w w.handlers ∧ Capped env w := h.invariant
    (I := fun w => Good env w w.handlers ∧ Capped env w) ⟨Good.init, fun _ => Nat.zero_le _⟩
    fun _ _ _ hI _ hw => ⟨Good.step hI.1 hw, capped_step hI.1 hI.2 hw⟩
  refine ⟨fun a => ?_, fun a hne => ?_, fun now p => approved_in_time hg.inv.lawful, fun a hent => ?_,
    fun a => ?_, fun a r w' r' hr hne hreach hr' => ?_, hcap.2⟩
  · obtain ⟨s, -, hs⟩ := hsum a; exact length_handoffs_le_one hs
  · obtain ⟨s, -, hs⟩ := hsum a; exact handedOff_only hs hne
  · obtain ⟨s, hlife, hs⟩ := hsum a
    rcases waiting_or_left hs hent fun o ph heq => hg.inv.rest a o ph (heq ▸ hlife) with
      ⟨⟨o, p, rfl⟩, hrest⟩ | ⟨hnot, hrest⟩
    · obtain rfl := entry_order_of_lifeOf hlife (p := p) rfl
      exact .inl ⟨Dict.mem_keys_iff.2 ⟨p, hg.pending_iff.2 hlife⟩, hrest⟩
    · refine .inr ⟨fun hmem => ?_, hrest⟩
      obtain ⟨p, hp⟩ := Dict.mem_keys_iff.1 hmem
      exact hnot _ p (Option.some.inj (hlife.symm.trans (hg.pending_iff.1 hp)))
  · obtain ⟨s, -, hs⟩ := hsum a; exact length_verdicts_le_one hs
  · -- a terminal phase is the last one, and a resolution shows its action's phase
    have hg' := good_of_reaches (h.trans hreach)
    obtain ⟨cs, hcs⟩ := trace_prefix_of_reaches hreach
    obtain ⟨s, hlife, -⟩ := hsum a
    rw [hg.store_eq] at hr
    obtain ⟨o, ph, st, rfl, hst, hof⟩ := resolution_storeAfter hg.inv.lawful hlife hr
    have hlife' : lifeOf a (w.trace ++ cs) = some (some (o, ph)) := lifeOf_of_final hlife
      (final_of_status hst (hof.2.2 ▸ hne)) (hcs ▸ hg'.inv.lawful)
    rw [hcs] at hlife'
    rw [hg'.store_eq] at hr'
    obtain ⟨o', ph', st', heq, hst', hof'⟩ := resolution_storeAfter hg'.inv.lawful hlife' hr'
    obtain ⟨rfl, rfl⟩ : o = o' ∧ ph = ph' := by simpa using heq
    rw [hof'.2.2, hof.2.2]
    exact Option.some.inj (hst'.symm.trans hst)

/-- An order over the mandate: queued, approved and handed off. -/
def approvedActs : List Act :=
  [.putGrant "partner-a" 100] ++ arrive 0 "partner-a" "act-1" (chair 300 chair_range) ++
    [.reserve 0, .approve 1 "act-1", .handOff 1]

theorem queueSafe_of_reaches_approved : ∃ w, handoffsOf "act-1" w.trace = [()] ∧
    QueueSafe (.ticking ⟨100, 50, 100, 10, 100, 50⟩) anyAct w := by
  obtain ⟨w, hw, hp⟩ := exists_reaches_of_run (step (.ticking ⟨100, 50, 100, 10, 100, 50⟩)) anyAct .init
    approvedActs (fun w => decide (handoffsOf "act-1" w.trace = [()])) (fun _ _ _ => trivial) (by decide)
  exact ⟨w, of_decide_eq_true hp, queueSafe_of_reaches _ w hw⟩

end Embassy
