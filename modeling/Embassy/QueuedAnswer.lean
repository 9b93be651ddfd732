import Embassy.ReservationSettles

/-!
# The 202 of a queued order

`create_tier3_order` queues the action in its locked block and reads the entry back for its answer
outside the lock. Between the two, every step that prunes, approves, rejects or revokes may take the
entry out (`Act.TakesOut`), and then the lookup raises; while no step of a run does that, every queued
order gets its answer.
-/

namespace Embassy
open Lib

namespace Act

/-- The reading `prune_tier3_pending` takes, where the step calls it. -/
def pruneTime? (env : Env) (w : World) : Act → Option ℤ
  | reserve i =>
    match w.handlers i with
    | some (.limitRead o limit) =>
      if w.usedCents env o.clientId + o.body.amountCents ≤ limit then none else some (w.tick.now env)
    | _ => none
  | poll _ limited headers introspect _ =>
    if limited then none
    else
      match authenticate headers introspect with
      | .error _ => none
      | .ok _ => some (w.now env)
  | approve .. | reject .. | deleteGrant _ | listApprovals => some (w.now env)
  | _ => none

/-- The step decides on the entry, or revokes its client's grant. -/
def Closes : Act → Tier3PendingAction → Prop
  | approve _ actionId, p | reject _ actionId, p => p.actionId = actionId
  | deleteGrant clientId, p => p.clientId = clientId
  | _, _ => False

/-- The step takes the entry out of the queue: it prunes when the entry is overdue, or closes it. -/
def TakesOut (env : Env) (w : World) (act : Act) (p : Tier3PendingAction) : Prop :=
  (∃ now ∈ act.pruneTime? env w, p.expiresAt < now) ∨ act.Closes p

instance (act : Act) (p : Tier3PendingAction) : Decidable (act.Closes p) :=
  match act with
  | approve _ actionId | reject _ actionId => inferInstanceAs (Decidable (p.actionId = actionId))
  | deleteGrant clientId => inferInstanceAs (Decidable (p.clientId = clientId))
  | order .. | readLimit .. | .reserve _ | turnAway _ | answerQueued _ | handOff _ | settle .. | resolve _ |
    putGrant .. | listApprovals | poll .. | pollRead _ => inferInstanceAs (Decidable False)

instance (env : Env) (w : World) (act : Act) (p : Tier3PendingAction) : Decidable (act.TakesOut env w p) :=
  inferInstanceAs (Decidable (_ ∨ _))

end Act

/-- The step takes out no entry whose order still waits for its 202. -/
def SparesQueued (env : Env) (w : World) (act : Act) : Prop :=
  ∀ i o p, w.handlers i = some (.queued o) → w.store.tier3Pending.get? o.actionId = some p →
    ¬ act.TakesOut env w p

/-- Every queued order is answered 202, with its action id and status path. -/
def QueuedAnswered (env : Env) (w : World) : Prop :=
  ∀ i o, w.handlers i = some (.queued o) → ∃ expiresAt, step env w (.answerQueued i) =
    some (w.goto i (.answered (.pendingApproval o.actionId (statusPath o.actionId) expiresAt)))

section
variable {env : Env} {w w' : World} {act : Act} {a b c : String} {o : Order} {p : Tier3PendingAction}
  {i : ℕ} {exit : Exit} {now : ℤ} {outcome : Outcome} {reason detail : String} {status : ResolutionStatus}

/-! ### What the locked blocks leave in the queue -/

namespace World

theorem keyed_tick (h : w.Keyed) : w.tick.Keyed := h

theorem get?_pending_close (hp : w.Keyed) (ha : w.store.tier3Pending.get? a = some p) :
    (w.close env exit now outcome reason status detail p).store.tier3Pending.get? b =
      if b = a then none else w.store.tier3Pending.get? b := by
  rw [pending_close, Dict.get?_erase, hp a p ha]

theorem get?_pending_approve (hk : (w.pruneTier3Pending env).Keyed) (a b : String) :
    (w.approveTier3Action env a).1.store.tier3Pending.get? b =
      if b = a then none else (w.pruneTier3Pending env).store.tier3Pending.get? b := by
  unfold approveTier3Action
  simp only
  split
  · rename_i hnone
    split
    · rename_i hb
      rw [hb, hnone]
    · rfl
  · rename_i p hp
    split
    · exact get?_pending_close hk hp
    · change ((w.pruneTier3Pending env).store.tier3Pending.erase p.actionId).get? b = _
      rw [Dict.get?_erase, hk a p hp]

theorem get?_pending_reject (hk : (w.pruneTier3Pending env).Keyed) (a b : String) :
    (w.rejectTier3Action env a).1.store.tier3Pending.get? b =
      if b = a then none else (w.pruneTier3Pending env).store.tier3Pending.get? b := by
  unfold rejectTier3Action
  simp only
  split
  · rename_i hnone
    split
    · rename_i hb
      rw [hb, hnone]
    · rfl
  · rename_i p hp
    exact get?_pending_close hk hp

theorem get?_pending_deleteGrant (hk : ((w.call env (.ungranted c)).pruneTier3Pending env).Keyed) (b : String) :
    (w.deleteTier3Grant env c).store.tier3Pending.get? b =
      (((w.call env (.ungranted c)).pruneTier3Pending env).store.tier3Pending.get? b).filter
        fun p => p.clientId ≠ c := by
  unfold deleteTier3Grant revoke
  simp only
  generalize (w.call env (.ungranted c)).pruneTier3Pending env = v at hk ⊢
  rw [get?_pending_foldl_close]
  cases hb : v.store.tier3Pending.get? b with
  | none => simp
  | some p =>
    have hmem : b ∈ (v.pendingOf c).map Tier3PendingAction.actionId ↔ p.clientId = c := by
      simp only [List.mem_map, pendingOf, List.mem_filter, decide_eq_true_eq]
      constructor
      · rintro ⟨q, ⟨hq, hc⟩, rfl⟩
        have hq := hk.get? hq
        rw [hb] at hq
        obtain rfl := Option.some.inj hq
        exact hc
      · exact fun hc => ⟨p, ⟨Dict.mem_values_iff.2 ⟨b, hb⟩, hc⟩, hk b p hb⟩
    by_cases hc : p.clientId = c
    · rw [if_pos (hmem.2 hc)]
      simp [Option.filter, hc]
    · rw [if_neg (hmem.not.2 hc)]
      simp [Option.filter, hc]

theorem get?_pending_reserveOrQueue_of_ne (hb : b ≠ o.actionId) (limit : ℕ) :
    (w.reserveOrQueue env o limit).1.store.tier3Pending.get? b =
      if w.usedCents env o.clientId + o.body.amountCents ≤ limit then w.store.tier3Pending.get? b
      else (w.tick.pruneTier3Pending env).store.tier3Pending.get? b := by
  rcases w.reserveOrQueue_cases env o limit with ⟨hlim, heq⟩ | ⟨hlim, -, heq⟩ | ⟨hlim, -, reason, heq⟩
  · rw [heq, if_pos hlim]
    rfl
  · rw [heq, if_neg (not_le.2 hlim)]
  · rw [heq, if_neg (not_le.2 hlim)]
    exact (Dict.get?_set ..).trans (if_neg hb)

theorem queued_of_reserveOrQueue {o' : Order} {limit : ℕ}
    (h : (w.reserveOrQueue env o limit).2 = .queued o') :
    ((w.reserveOrQueue env o limit).1.store.tier3Pending.get? o'.actionId).isSome := by
  unfold reserveOrQueue at h ⊢
  simp only at h ⊢
  split at h <;> rename_i hlim
  · cases h
  · simp only [hlim, if_false]
    split at h <;> rename_i hfull
    · cases h
    · simp only [hfull, if_false]
      obtain rfl := Handler.queued.inj h
      change ((Dict.set _ o.actionId _).get? o.actionId).isSome
      rw [Dict.get?_set, if_pos rfl]
      rfl

end World

/-! ### What a step takes out -/

theorem isSome_filter_iff {α : Type*} (x : α) (P : α → Prop) [DecidablePred P] :
    ((some x).filter fun y => P y).isSome ↔ P x := by
  by_cases h : P x <;> simp [Option.filter, h]

theorem isSome_pending_prune (env : Env) (hk : w.Keyed) (hp : w.store.tier3Pending.get? a = some p) :
    ((w.pruneTier3Pending env).store.tier3Pending.get? a).isSome ↔ ¬ p.expiresAt < w.now env := by
  rw [World.get?_pending_prune hk, hp, isSome_filter_iff, not_lt]

theorem isSome_pending_decision (hk : w.Keyed) (hp : w.store.tier3Pending.get? a = some p) :
    (if a = b then none else (w.pruneTier3Pending env).store.tier3Pending.get? a).isSome ↔
      ¬ (p.expiresAt < w.now env ∨ p.actionId = b) := by
  rw [hk a p hp, not_or, ← isSome_pending_prune env hk hp]
  split <;> simp [*]

theorem takesOut_iff_of_prune (h : act.pruneTime? env w = some now) :
    act.TakesOut env w p ↔ p.expiresAt < now ∨ act.Closes p := by
  simp [Act.TakesOut, h]

theorem takesOut_iff_of_no_prune (h : act.pruneTime? env w = none) :
    act.TakesOut env w p ↔ act.Closes p := by
  simp [Act.TakesOut, h]

theorem isSome_pending_step (hg : Good env w w.handlers) (hw : step env w act = some w')
    (hp : w.store.tier3Pending.get? a = some p) :
    (w'.store.tier3Pending.get? a).isSome ↔ ¬ act.TakesOut env w p := by
  have hk := hg.keyed
  have hkprune := hg.prune.1.keyed
  have hkeep : ∀ {v : World} {i : ℕ} {h : Handler}, v.store.tier3Pending = w.store.tier3Pending →
      act.pruneTime? env w = none → ¬ act.Closes p →
      (((v.goto i h).store.tier3Pending.get? a).isSome ↔ ¬ act.TakesOut env w p) := by
    intro v i h hv hnone hcloses
    rw [takesOut_iff_of_no_prune hnone]
    change (v.store.tier3Pending.get? a).isSome ↔ _
    simp [hv, hp, hcloses]
  cases act with
  | order i limited headers introspect body =>
    simp only [step] at hw
    split at hw <;> [cases hw; skip]
    split at hw
    · obtain rfl := Option.some.inj hw
      exact hkeep rfl rfl id
    · split at hw <;> obtain rfl := Option.some.inj hw <;> exact hkeep rfl rfl id
  | readLimit i actionId =>
    simp only [step] at hw
    split at hw <;> [skip; cases hw]
    split at hw
    · obtain rfl := Option.some.inj hw
      exact hkeep rfl rfl id
    · split at hw <;> [skip; cases hw]
      obtain rfl := Option.some.inj hw
      exact hkeep rfl rfl id
  | reserve i =>
    simp only [step] at hw
    split at hw <;> [rename_i o limit hi; cases hw]
    obtain rfl := Option.some.inj hw
    -- the order's own action is not in the queue yet
    have hne : a ≠ o.actionId := by
      rintro rfl
      have hlife := hg.pending_iff.1 hp
      rw [hg.inv.driven i _ o _ hi rfl] at hlife
      cases hlife
    change ((w.reserveOrQueue env o limit).1.store.tier3Pending.get? a).isSome ↔ _
    rw [World.get?_pending_reserveOrQueue_of_ne hne]
    by_cases hlim : w.usedCents env o.clientId + o.body.amountCents ≤ limit
    · rw [if_pos hlim, takesOut_iff_of_no_prune (by simp only [Act.pruneTime?, hi, if_pos hlim])]
      simp [hp, Act.Closes]
    · have hnow : (Act.reserve i).pruneTime? env w = some (w.tick.now env) := by
        simp only [Act.pruneTime?, hi, if_neg hlim]
      rw [if_neg hlim, isSome_pending_prune env (World.keyed_tick hk) hp, takesOut_iff_of_prune hnow]
      simp [Act.Closes]
  | turnAway i | handOff i | resolve i =>
    simp only [step] at hw
    split at hw <;> [skip; cases hw]
    obtain rfl := Option.some.inj hw
    exact hkeep rfl rfl id
  | answerQueued i =>
    simp only [step] at hw
    split at hw <;> [skip; cases hw]
    split at hw <;> obtain rfl := Option.some.inj hw <;> exact hkeep rfl rfl id
  | settle i result =>
    simp only [step] at hw
    split at hw <;> [skip; skip; cases hw] <;> obtain rfl := Option.some.inj hw <;> exact hkeep rfl rfl id
  | approve i actionId =>
    simp only [step] at hw
    split at hw <;> [skip; cases hw]
    obtain rfl := Option.some.inj hw
    change ((w.approveTier3Action env actionId).1.store.tier3Pending.get? a).isSome ↔ _
    rw [World.get?_pending_approve hkprune, isSome_pending_decision hk hp, takesOut_iff_of_prune rfl]
    rfl
  | reject i actionId =>
    simp only [step] at hw
    split at hw <;> [skip; cases hw]
    obtain rfl := Option.some.inj hw
    change ((w.rejectTier3Action env actionId).1.store.tier3Pending.get? a).isSome ↔ _
    rw [World.get?_pending_reject hkprune, isSome_pending_decision hk hp, takesOut_iff_of_prune rfl]
    rfl
  | putGrant c limit =>
    obtain rfl := Option.some.inj hw
    rw [takesOut_iff_of_no_prune rfl]
    change (w.store.tier3Pending.get? a).isSome ↔ _
    simp [hp, Act.Closes]
  | deleteGrant c =>
    obtain rfl := Option.some.inj hw
    have hungranted := hg.call (c := .ungranted c) rfl trivial
    have hprune := isSome_pending_prune env hungranted.keyed hp
    rw [World.get?_pending_deleteGrant hungranted.prune.1.keyed, takesOut_iff_of_prune rfl]
    rw [World.get?_pending_prune hungranted.keyed] at hprune ⊢
    change ((Option.filter _ ((w.store.tier3Pending.get? a).filter _)).isSome ↔ _)
    change ((((w.store.tier3Pending.get? a).filter _).isSome) ↔ _) at hprune
    rw [hp] at hprune ⊢
    change _ ↔ ¬ (p.expiresAt < (w.call env (.ungranted c)).now env ∨ p.clientId = c)
    by_cases hlt : p.expiresAt < (w.call env (.ungranted c)).now env
    · simp [Option.filter, hlt, not_le.2 hlt]
    · simp [Option.filter, hlt, not_lt.1 hlt]
  | listApprovals =>
    obtain rfl := Option.some.inj hw
    rw [isSome_pending_prune env hk hp, takesOut_iff_of_prune rfl]
    simp [Act.Closes]
  | poll i limited headers introspect actionId =>
    simp only [step] at hw
    split at hw <;> [cases hw; skip]
    split at hw <;> rename_i hlimited
    · obtain rfl := Option.some.inj hw
      exact hkeep rfl (if_pos hlimited) id
    · split at hw <;> rename_i hauth <;> obtain rfl := Option.some.inj hw
      · exact hkeep rfl (by simp only [Act.pruneTime?, if_neg hlimited, hauth]) id
      · have hnow : (Act.poll i limited headers introspect actionId).pruneTime? env w = some (w.now env) := by
          simp only [Act.pruneTime?, if_neg hlimited, hauth]
        change ((w.pruneTier3Pending env).store.tier3Pending.get? a).isSome ↔ _
        rw [isSome_pending_prune env hk hp, takesOut_iff_of_prune hnow]
        simp [Act.Closes]
  | pollRead i =>
    simp only [step] at hw
    split at hw <;> [skip; cases hw]
    split at hw
    · split at hw <;> obtain rfl := Option.some.inj hw <;> exact hkeep rfl rfl id
    · obtain rfl := Option.some.inj hw
      exact hkeep rfl rfl id

/-! ### Who waits for a 202 -/

/-- A request waits since before the step, or its locked block was the step and it is in the queue. -/
theorem queued_of_step (hw : step env w act = some w') (hi : w'.handlers i = some (.queued o)) :
    w.handlers i = some (.queued o) ∨ (w'.store.tier3Pending.get? o.actionId).isSome := by
  by_cases hr : act.request? = some i
  · right
    have hself : ∀ {v : World} {h : Handler}, (v.goto i h).handlers i = some (.queued o) → h = .queued o := by
      intro v h hh
      change Function.update v.handlers i (some h) i = _ at hh
      rw [Function.update_self] at hh
      exact Option.some.inj hh
    cases act with
    | reserve j =>
      obtain rfl : j = i := Option.some.inj hr
      simp only [step] at hw
      split at hw <;> [skip; cases hw]
      obtain rfl := Option.some.inj hw
      exact World.queued_of_reserveOrQueue (hself hi)
    | approve j actionId =>
      obtain rfl : j = i := Option.some.inj hr
      simp only [step] at hw
      split at hw <;> [skip; cases hw]
      obtain rfl := Option.some.inj hw
      have hqueued := hself hi
      unfold World.approveTier3Action at hqueued
      simp only at hqueued
      split at hqueued <;> [cases hqueued; skip]
      split at hqueued <;> cases hqueued
    | reject j actionId =>
      obtain rfl : j = i := Option.some.inj hr
      simp only [step] at hw
      split at hw <;> [skip; cases hw]
      obtain rfl := Option.some.inj hw
      have hqueued := hself hi
      unfold World.rejectTier3Action at hqueued
      simp only at hqueued
      split at hqueued <;> cases hqueued
    | putGrant | deleteGrant | listApprovals => cases hr
    | _ =>
      obtain rfl := Option.some.inj hr
      simp only [step] at hw
      repeat' split at hw
      all_goals cases hw
      all_goals cases hself hi
  · exact .inl (handlers_step_of_ne hw hr ▸ hi)

theorem answered_iff (hi : w.handlers i = some (.queued o)) :
    (∃ expiresAt, step env w (.answerQueued i) =
      some (w.goto i (.answered (.pendingApproval o.actionId (statusPath o.actionId) expiresAt)))) ↔
      (w.store.tier3Pending.get? o.actionId).isSome := by
  simp only [step, hi]
  cases w.store.tier3Pending.get? o.actionId with
  | some p => exact iff_of_true ⟨p.expiresAt, rfl⟩ rfl
  | none =>
    refine iff_of_false ?_ Bool.false_ne_true
    rintro ⟨expiresAt, heq⟩
    have hself := congrFun (congrArg World.handlers (Option.some.inj heq)) i
    simp [World.goto] at hself

theorem queuedAnswered_iff : QueuedAnswered env w ↔
    ∀ i o, w.handlers i = some (.queued o) → (w.store.tier3Pending.get? o.actionId).isSome :=
  forall₂_congr fun _ _ => forall_congr' answered_iff

theorem act_of_closes {j : ℕ} (hw : step env w act = some w') (ht : act.TakesOut env w p)
    (hj : w.handlers j = some (.queued o)) : act.request? ≠ some j := by
  intro hr
  rcases ht with ⟨now, hnow, -⟩ | hc
  · cases act with
    | reserve i =>
      obtain rfl := Option.some.inj hr
      simp only [Act.pruneTime?, hj] at hnow
      cases hnow
    | approve | reject | poll =>
      obtain rfl := Option.some.inj hr
      simp only [step, hj] at hw
      cases hw
    | deleteGrant | listApprovals => cases hr
    | _ => cases hnow
  · cases act with
    | approve | reject =>
      obtain rfl := Option.some.inj hr
      simp only [step, hj] at hw
      cases hw
    | deleteGrant => cases hr
    | _ => exact hc

/-- A step keeps the promise exactly if it spares the entries that wait for their 202. -/
theorem queuedAnswered_step_iff (hg : Good env w w.handlers) (h : QueuedAnswered env w)
    (hw : step env w act = some w') : QueuedAnswered env w' ↔ SparesQueued env w act := by
  rw [queuedAnswered_iff] at h ⊢
  constructor
  · intro h' i o p hi hp ht
    have hi' : w'.handlers i = some (.queued o) := (handlers_step_of_ne hw (act_of_closes hw ht hi)).trans hi
    exact (isSome_pending_step hg hw hp).1 (h' i o hi') ht
  · intro hspares i o hi'
    rcases queued_of_step hw hi' with hi | hsome
    · obtain ⟨p, hp⟩ := Option.isSome_iff_exists.1 (h i o hi)
      exact (isSome_pending_step hg hw hp).2 (hspares i o p hi hp)
    · exact hsome

theorem SparesQueued.of_values (h : ∀ p ∈ w.store.tier3Pending.values, ¬ act.TakesOut env w p) :
    SparesQueued env w act :=
  fun _ o p _ hp => h p (Dict.mem_values_iff.2 ⟨o.actionId, hp⟩)

end

/-- While no step of a run takes out the entry of an order that waits for its 202, every queued order
gets it; the first step that does leaves one without. -/
theorem queuedAnswered_of_reaches (env : Env) (w : World)
    (h : Reaches (step env) (SparesQueued env) .init w) : QueuedAnswered env w ∧
      ∀ act w', step env w act = some w' → (QueuedAnswered env w' ↔ SparesQueued env w act) := by
  have hall : Good env w w.handlers ∧ QueuedAnswered env w := by
    refine h.invariant (I := fun w => Good env w w.handlers ∧ QueuedAnswered env w) ⟨Good.init, ?_⟩ ?_
    · rintro i o ⟨⟩
    · rintro v act v' ⟨hg, hv⟩ hspares hstep
      exact ⟨hg.step hstep, (queuedAnswered_step_iff hg hv hstep).2 hspares⟩
  exact ⟨hall.2, fun act w' hw => queuedAnswered_step_iff hall.1 hall.2 hw⟩

/-- Request 0 is queued, and the queue is listed before its answer. -/
def listedActs : List Act :=
  .putGrant "partner-a" 100 :: arrive 0 "partner-a" "act-1" (chair 300 chair_range) ++ [.reserve 0, .listApprovals]

theorem queuedAnswered_of_reaches_listed : ∃ w, (∃ o, w.handlers 0 = some (.queued o)) ∧
    QueuedAnswered (.ticking ⟨100, 50, 100, 10, 100, 50⟩) w := by
  let env : Env := .ticking ⟨100, 50, 100, 10, 100, 50⟩
  let spares : World → Act → Prop := fun w act => ∀ p ∈ w.store.tier3Pending.values, ¬ act.TakesOut env w p
  have hrun : ((runUnder (step env) spares .init listedActs).map fun w => w.handlers 0) =
      some (some (.queued ⟨"act-1", "partner-a", chair 300 chair_range⟩)) := by decide
  obtain ⟨w, hw, hi⟩ := Option.map_eq_some_iff.1 hrun
  have hok : ∀ w act, spares w act → SparesQueued env w act := fun _ _ => SparesQueued.of_values
  have hreach := (reaches_of_runUnder hw).mono hok
  exact ⟨w, ⟨_, hi⟩, (queuedAnswered_of_reaches env w hreach).1⟩

/-- The same, but the client's grant is deleted before the answer. -/
def revokedActs : List Act :=
  .putGrant "partner-a" 100 :: arrive 0 "partner-a" "act-1" (chair 300 chair_range) ++
    [.reserve 0, .deleteGrant "partner-a"]

/-- A revocation between the two steps takes the entry out, and the lookup raises. -/
theorem not_queuedAnswered : ¬ ∀ env : Env, 1 ≤ env.pendingTtlSeconds →
    ∀ w, Reaches (step env) anyAct .init w → QueuedAnswered env w := by
  intro h
  let env : Env := .ticking ⟨100, 50, 100, 10, 100, 50⟩
  have hrun : ((run (step env) .init revokedActs).map fun w =>
      decide (w.handlers 0 = some (.queued ⟨"act-1", "partner-a", chair 300 chair_range⟩) ∧
        w.store.tier3Pending.get? "act-1" = none)) = some true := by decide
  obtain ⟨w, hw, hp⟩ := exists_reaches_of_run (step env) anyAct .init revokedActs _ (fun _ _ _ => trivial) hrun
  obtain ⟨hi, hnone⟩ := of_decide_eq_true hp
  have hsome := queuedAnswered_iff.1 (h env (by decide) w hw) 0 _ hi
  rw [hnone] at hsome
  cases hsome

end Embassy
