import Embassy.Tier3Invariant
import Embassy.Tier3Ledger

/-!
# Budgets over whole runs

In every run the audit trail refines the abstract ledger (`LedgerRefined`). So the budget check under
the lock sees every live reservation, and what a client spends within a mandate that is never changed
stays below its limit (`mandate_never_exceeded`), in every window and however its requests interleave.
-/

namespace Embassy
open Lib

/-- What the ledger promises in a state of a run. -/
structure LedgerRefined (env : Env) (w : World) : Prop where
  /-- Usage is the live spend in the window, for everyone who is uncrowded. -/
  used_eq : ∀ c t, Uncrowded env.toTier3Config c w.trace → env.Past w t →
    tier3UsedCents env.toTier3Config w.store.tier3Events c t =
      spentCents env.toTier3Config c t (ledger w.trace)
  /-- The ledger has every reservation, ... -/
  listed : (ledger w.trace).map Reservation.event = w.trace.filterMap Call.reservedEvent?
  /-- ... each action once, ... -/
  counted_once : ((ledger w.trace).map fun r => r.event.actionId).Nodup
  /-- ... with what its handoff ended with. -/
  fates : ∀ r ∈ ledger w.trace, ∀ a, r.event.actionId = some a → resultsOf a w.trace = r.fate.toList
  /-- A settlement rewrites the event of the action's reservation or, once that was dropped, none. -/
  settles : ∀ i h result w', w.handlers i = some (.executing h) →
    step env w (.settle i (.ok result)) = some w' → w'.store.tier3Events = w.store.tier3Events ∨
      ∃ l₁ e l₂ outcome reason orderNumber, w.store.tier3Events = l₁ ++ e :: l₂ ∧
        .reserved h.approvedByHuman e ∈ w.trace ∧ e.actionId = some h.order.actionId ∧
        w'.store.tier3Events = l₁ ++ e.settle outcome reason orderNumber :: l₂

section
variable {env : Env} {ok : World → Act → Prop} {w w' : World} {act : Act} {c : String} {t : ℤ}
  {limit : ℕ}

theorem used_eq_spent {handlers : ℕ → Option Handler} (hg : Good env w handlers) (ht : Timed env w)
    (hun : Uncrowded env.toTier3Config c w.trace) (hpast : env.Past w t) :
    tier3UsedCents env.toTier3Config w.store.tier3Events c t =
      spentCents env.toTier3Config c t (ledger w.trace) := by
  rw [hg.store_eq]
  exact tier3UsedCents_eq_spent hg.inv.lawful ht.sorted hun (ht.le_of_past hpast)

theorem past_now (env : Env) (w : World) : env.Past w (w.now env) := fun _ hk => env.clock_mono hk.le

end

/-- The audit trail refines the ledger in every state of every run. -/
theorem ledgerRefined_of_reaches (env : Env) (w : World) (h : Reaches (step env) anyAct .init w) :
    LedgerRefined env w := by
  have hg := good_of_reaches h
  have ht := timed_of_reaches h
  refine ⟨fun c t hun hpast => used_eq_spent hg ht hun hpast, map_event_ledger _,
    nodup_ledger hg.inv.lawful, results_eq_fate hg.inv.lawful, fun i h result w' hi hw => ?_⟩
  simp only [step, hi] at hw
  obtain rfl := Option.some.inj hw
  have hevents : w.store.tier3Events = replay env.toTier3Config (auditCalls w.trace) := by
    rw [hg.store_eq, tier3Events_storeAfter]
  rcases settles_reservation hg.inv.lawful ht.sorted (ht.le_of_past (past_now env w))
    (hg.inv.driven i _ h.order _ hi rfl) (settlement h.approvedByHuman result).outcome
    (settlement h.approvedByHuman result).reason (settlement h.approvedByHuman result).orderNumber
    hevents with hsame | ⟨l₁, e, l₂, hsplit, hres, ha, hnew⟩
  · exact .inl hsame
  · exact .inr ⟨l₁, e, l₂, _, _, _, hsplit, hres, ha, hnew⟩

/-- An order within its mandate, whose handoff did not complete. -/
def unknownActs : List Act :=
  [.putGrant "partner-a" 500] ++ arrive 0 "partner-a" "act-1" (chair 300 chair_range) ++
    [.reserve 0, .handOff 0, .settle 0 (.ok .unknown)]

theorem ledgerRefined_of_reaches_unknown : ∃ w, resultsOf "act-1" w.trace = [.unknown] ∧
    LedgerRefined (.ticking ⟨100, 50, 100, 10, 100, 50⟩) w := by
  obtain ⟨w, hw, hp⟩ := exists_reaches_of_run (step (.ticking ⟨100, 50, 100, 10, 100, 50⟩)) anyAct .init
    unknownActs (fun w => decide (resultsOf "act-1" w.trace = [.unknown])) (fun _ _ _ => trivial)
    (by decide)
  exact ⟨w, of_decide_eq_true hp, ledgerRefined_of_reaches _ w hw⟩

/-! ### One mandate, never changed -/

/-- The client's grant is only ever put at `limit`, and not deleted. -/
def KeepsGrant (c : String) (limit : ℕ) (_ : World) : Act → Prop
  | .putGrant c' limit' => c' = c → limit' = limit
  | .deleteGrant c' => c' ≠ c
  | _ => True

section
variable {env : Env} {w w' : World} {act : Act} {c : String} {t : ℤ} {limit : ℕ}

/-- The client's grant, if there is one yet, is `limit`. -/
def GrantIs (c : String) (limit : ℕ) (w : World) : Prop :=
  ∀ l, w.store.tier3Grants.get? c = some l → l = limit

theorem stable_grantIs :
    Stable env (fun call => ∀ l, call = .granted c l → l = limit) (GrantIs c limit) := by
  have hcall : ∀ {w : World} {call : Call}, (∀ l, call = .granted c l → l = limit) → GrantIs c limit w →
      GrantIs c limit (w.call env call) := by
    intro w call hc h l hl
    cases call with
    | granted c' l' =>
      change (w.store.tier3Grants.set c' l').get? c = some l at hl
      rw [Dict.get?_set] at hl
      split at hl <;> rename_i hcc
      · obtain rfl := Option.some.inj hl; exact hc l' (by rw [hcc])
      · exact h l hl
    | ungranted c' =>
      change (w.store.tier3Grants.erase c').get? c = some l at hl
      rw [Dict.get?_erase] at hl
      split at hl
      · cases hl
      · exact h l hl
    | _ => exact h l hl
  exact ⟨id, fun hc _ => hcall hc, fun hc _ => hcall hc⟩

theorem grantIs_step (hok : KeepsGrant c limit w act) (h : GrantIs c limit w)
    (hw : step env w act = some w') : GrantIs c limit w' := by
  refine stable_grantIs.step (fun _ _ h => h) (fun call hc l => ?_) h hw
  rintro rfl
  cases act with
  | putGrant c' l' => obtain ⟨rfl, rfl⟩ := hc; exact hok rfl
  | _ => exact hc.elim

theorem handler_of_goto {v : World} {i j : ℕ} {h h' : Handler} (hv : v.handlers = w.handlers)
    (hi : (v.goto j h).handlers i = some h') (hne : h ≠ h') : w.handlers i = some h' := by
  change Function.update v.handlers j (some h) i = some h' at hi
  rw [Function.update_apply] at hi
  split at hi
  · exact absurd (Option.some.inj hi) hne
  · rwa [hv] at hi

theorem reserveOrQueue_ne_limitRead {o o' : Order} {l l' : ℕ} :
    (w.reserveOrQueue env o l).2 ≠ .limitRead o' l' := by
  unfold World.reserveOrQueue
  simp only
  split
  · rintro ⟨⟩
  · split <;> rintro ⟨⟩

theorem approveTier3Action_ne_limitRead {a : String} {o' : Order} {l' : ℕ} :
    (w.approveTier3Action env a).2 ≠ .limitRead o' l' := by
  unfold World.approveTier3Action
  simp only
  split
  · rintro ⟨⟩
  · split <;> rintro ⟨⟩

theorem rejectTier3Action_ne_limitRead {a : String} {o' : Order} {l' : ℕ} :
    (w.rejectTier3Action env a).2 ≠ .limitRead o' l' := by
  unfold World.rejectTier3Action
  simp only
  split <;> rintro ⟨⟩

theorem limitRead_of_step {i : ℕ} {o : Order} {l : ℕ} (hw : step env w act = some w')
    (hi : w'.handlers i = some (.limitRead o l)) :
    w.handlers i = some (.limitRead o l) ∨ w.store.tier3Grants.get? o.clientId = some l := by
  have hkeep := stable_handlers env w.handlers
  have hprune := hkeep.pruneTier3Pending (fun _ _ => trivial) rfl
  cases act with
  | readLimit j a =>
    simp only [step] at hw
    split at hw <;> [rename_i c body hj; cases hw]
    split at hw
    · obtain rfl := Option.some.inj hw
      exact .inl (handler_of_goto rfl hi (by rintro ⟨⟩))
    · rename_i l' hl'
      split at hw <;> [skip; cases hw]
      obtain rfl := Option.some.inj hw
      by_cases hsame : Handler.limitRead ⟨a, c, body⟩ l' = .limitRead o l
      · obtain ⟨rfl, rfl⟩ := by simpa using hsame
        exact .inr hl'
      · exact .inl (handler_of_goto rfl hi hsame)
  | reserve j =>
    simp only [step] at hw
    split at hw <;> [skip; cases hw]
    obtain rfl := Option.some.inj hw
    exact .inl (handler_of_goto (hkeep.reserveOrQueue j (fun _ _ => trivial) _ _ rfl) hi
      reserveOrQueue_ne_limitRead)
  | approve j a =>
    simp only [step] at hw
    split at hw <;> [skip; cases hw]
    obtain rfl := Option.some.inj hw
    exact .inl (handler_of_goto (hkeep.approveTier3Action j a (fun _ _ => trivial) rfl) hi
      approveTier3Action_ne_limitRead)
  | reject j a =>
    simp only [step] at hw
    split at hw <;> [skip; cases hw]
    obtain rfl := Option.some.inj hw
    exact .inl (handler_of_goto (hkeep.rejectTier3Action (fun _ _ => trivial) a rfl) hi
      rejectTier3Action_ne_limitRead)
  | putGrant | listApprovals | deleteGrant =>
    obtain rfl := Option.some.inj hw
    first
      | exact .inl hi
      | exact .inl (hprune ▸ hi)
      | exact .inl (hkeep.deleteTier3Grant (fun _ _ => trivial) rfl ▸ hi)
  | order | turnAway | answerQueued | handOff | settle | resolve | poll | pollRead =>
    simp only [step] at hw
    repeat' split at hw
    all_goals first
      | cases hw; done
      | obtain rfl := Option.some.inj hw
        first
          | exact .inl (handler_of_goto rfl hi (by rintro ⟨⟩))
          | exact .inl (handler_of_goto hprune hi (by rintro ⟨⟩))

/-- What holds in a run that keeps the client's grant. -/
structure MandateInv (env : Env) (c : String) (limit : ℕ) (w : World) : Prop where
  good : Good env w w.handlers
  timed : Timed env w
  grant : GrantIs c limit w
  read : ∀ i o l, w.handlers i = some (.limitRead o l) → o.clientId = c → l = limit
  spent : Uncrowded env.toTier3Config c w.trace → ∀ t, env.Past w t →
    mandateCents env.toTier3Config c t (ledger w.trace) ≤ limit

theorem stable_mandateCents : Stable env (fun call => ∀ e, call ≠ .reserved false e) fun w =>
    ∀ t, env.Past w t → mandateCents env.toTier3Config c t (ledger w.trace) ≤ limit where
  tick h t ht := h t fun k hk => ht k (Nat.lt_succ_of_lt hk)
  call {w call} hc _ h t ht := by
    show mandateCents _ c t (ledger (w.trace ++ [call])) ≤ limit
    rw [ledger_concat]
    exact (mandateCents_book_le hc _ t).trans (h t ht)
  read {w call} hc _ h t ht := by
    show mandateCents _ c t (ledger (w.trace ++ [call])) ≤ limit
    rw [ledger_concat]
    exact (mandateCents_book_le hc _ t).trans (h t fun k hk => ht k (Nat.lt_succ_of_lt hk))

theorem not_reserved_of_basic {call : Call} (h : call.Basic) : ∀ e, call ≠ .reserved false e := by
  rintro e rfl; exact h

/-- A reservation within the mandate finds room for itself beside all live spend. -/
theorem room_of_reserved {o : Order} {l : ℕ} {h : Handoff}
    (hres : (w.reserveOrQueue env o l).2 = .reserved h) :
    w.usedCents env o.clientId + o.body.amountCents ≤ l ∧
      (w.reserveOrQueue env o l).1 =
        w.tick.reserve env o false "within mandate -- handoff in progress" := by
  unfold World.reserveOrQueue at hres ⊢
  simp only at hres ⊢
  split at hres <;> rename_i hlim
  · exact ⟨hlim, by rw [if_pos hlim]⟩
  · split at hres <;> cases hres

theorem mandateCents_reserveOrQueue {o : Order} {l : ℕ} (hi : MandateInv env c limit w)
    (hl : o.clientId = c → l = limit)
    (hun : Uncrowded env.toTier3Config c (w.reserveOrQueue env o l).1.trace) :
    ∀ t, env.Past (w.reserveOrQueue env o l).1 t →
      mandateCents env.toTier3Config c t (ledger (w.reserveOrQueue env o l).1.trace) ≤ limit := by
  obtain ⟨cs, hcs⟩ : w.trace <+: (w.reserveOrQueue env o l).1.trace :=
    (stable_prefixOf w).reserveOrQueue 0 (fun _ _ => trivial) o l (List.prefix_refl _)
  have hun' : Uncrowded env.toTier3Config c w.trace := uncrowded_of_append (hcs ▸ hun)
  have hspent := hi.spent hun'
  unfold World.reserveOrQueue at hun ⊢
  simp only at hun ⊢
  split <;> rename_i hlim
  · intro t ht
    have hnow : w.now env ≤ t := ht w.reads (Nat.lt_succ_of_lt (Nat.lt_succ_self _))
    have hpast : env.Past w t := fun k hk => ht k (Nat.lt_succ_of_lt (Nat.lt_succ_of_lt hk))
    show mandateCents _ c t (ledger (w.trace ++ [_])) ≤ limit
    rw [ledger_concat, book, mandateCents_append, if_neg Bool.false_ne_true]
    have hadd : spentCents env.toTier3Config c t
        [⟨o.event (w.tick.now env) .accepted "within mandate -- handoff in progress", false, none⟩] ≤
          if o.clientId = c then o.body.amountCents else 0 := spentCents_singleton_le _ t
    by_cases hc : o.clientId = c
    · -- all live spend of the client is in the usage that was checked
      have hused : mandateCents env.toTier3Config c t (ledger w.trace) ≤
          w.usedCents env o.clientId := by
        rw [World.usedCents, hc, used_eq_spent hi.good hi.timed hun' (past_now env w)]
        exact (mandateCents_le_spentCents _ t).trans (spentCents_antitone _ hnow)
      rw [if_pos hc] at hadd
      have hlimit := hl hc
      omega
    · rw [if_neg hc] at hadd
      have := hspent t hpast
      omega
  · have hprune := stable_mandateCents.pruneTier3Pending (fun _ => not_reserved_of_basic)
      (stable_mandateCents.tick hspent)
    split
    · exact hprune
    · exact stable_mandateCents.read (by rintro _ ⟨⟩) ⟨rfl, rfl⟩
        (stable_mandateCents.read (by rintro _ ⟨⟩) ⟨rfl, trivial⟩
          (stable_mandateCents.read (by rintro _ ⟨⟩) ⟨rfl, trivial⟩ hprune))

theorem mandateInv_step (hok : KeepsGrant c limit w act) (hi : MandateInv env c limit w)
    (hw : step env w act = some w') : MandateInv env c limit w' := by
  refine ⟨hi.good.step hw, stable_timed.step (fun _ _ h => ⟨h.sorted, h.taken⟩) (fun _ _ => trivial)
    hi.timed hw, grantIs_step hok hi.grant hw, fun i o l hl hc => ?_, fun hun => ?_⟩
  · rcases limitRead_of_step hw hl with hl | hl
    · exact hi.read i o l hl hc
    · exact hi.grant l (hc ▸ hl)
  · obtain ⟨cs, hcs⟩ := trace_prefix_of_step hw
    by_cases hact : ∃ j, act = .reserve j
    · obtain ⟨j, rfl⟩ := hact
      simp only [step] at hw
      split at hw <;> [rename_i o l hj; cases hw]
      obtain rfl := Option.some.inj hw
      exact mandateCents_reserveOrQueue hi (hi.read j o l hj) hun
    · refine stable_mandateCents.step (fun _ _ h => h) (fun call hcall e => ?_)
        (hi.spent (uncrowded_of_append (hcs ▸ hun))) hw
      rintro rfl
      cases act with
      | reserve j => exact hact ⟨j, rfl⟩
      | approve => cases hcall
      | _ => exact hcall.elim

end

/-- A mandate that is never changed is never jointly exceeded: what was reserved within it in the
window and not released is at most the limit, and a new reservation within it had room beside all live
spend, approved or not. -/
theorem mandate_never_exceeded (env : Env) (c : String) (limit : ℕ) (w : World)
    (hr : Reaches (step env) (KeepsGrant c limit) .init w)
    (hun : Uncrowded env.toTier3Config c w.trace) :
    (∀ t, env.Past w t → mandateCents env.toTier3Config c t (ledger w.trace) ≤ limit) ∧
    ∀ i o l h w', w.handlers i = some (.limitRead o l) → o.clientId = c →
      step env w (.reserve i) = some w' → w'.handlers i = some (.reserved h) →
      spentCents env.toTier3Config c (w.now env) (ledger w.trace) + o.body.amountCents ≤ limit := by
  have hinit : MandateInv env c limit .init := by
    refine ⟨Good.init, ⟨List.Pairwise.nil, fun t ht => (by cases ht)⟩, fun l hl => (by cases hl),
      fun i o l hl => (by cases hl), fun _ t _ => Nat.zero_le _⟩
  have hi : MandateInv env c limit w :=
    hr.invariant hinit fun _ _ _ hi hok hw => mandateInv_step hok hi hw
  refine ⟨hi.spent hun, fun i o l h w' hlr hc hw hres => ?_⟩
  simp only [step, hlr] at hw
  obtain rfl := Option.some.inj hw
  have hres : (w.reserveOrQueue env o l).2 = .reserved h := by
    simpa [World.goto] using hres
  have hroom := (room_of_reserved hres).1
  rw [hi.read i o l hlr hc, World.usedCents, hc,
    used_eq_spent hi.good hi.timed hun (past_now env w)] at hroom
  exact hroom

theorem mandate_never_exceeded_unknown : ∃ w : World, (ledger w.trace).length = 1 ∧
    mandateCents ⟨100, 50, 100, 10, 100, 50⟩ "partner-a" 10 (ledger w.trace) ≤ 500 := by
  let cfg : Tier3Config := ⟨100, 50, 100, 10, 100, 50⟩
  have hok : ∀ a ∈ unknownActs, ∀ w, KeepsGrant "partner-a" 500 w a := by
    intro a ha w
    rcases List.mem_cons.1 ha with rfl | ha
    · exact fun _ => rfl
    · cases a with
      | putGrant | deleteGrant => simp [arrive] at ha
      | _ => trivial
  obtain ⟨w, hw, hp⟩ := exists_reaches_of_run (step (.ticking cfg)) (KeepsGrant "partner-a" 500) .init
    unknownActs (fun w => decide (w.reads ≤ 10 ∧ (w.trace.filterMap Call.event?).length ≤ 50 ∧
      (ledger w.trace).length = 1)) hok (by decide)
  obtain ⟨hreads, hlen, hledger⟩ := of_decide_eq_true hp
  refine ⟨w, hledger, (mandate_never_exceeded (.ticking cfg) "partner-a" 500 w hw (fun x =>
    (List.length_filter_le _ _).trans hlen)).1 10 fun k hk => ?_⟩
  show (k : ℤ) ≤ 10
  omega

end Embassy
