import Embassy.Tier3Invariant

/-!
# Revocation and limit changes

`approve_tier3_action` reads the grant under the lock, so what a human approves always has one.
`create_tier3_order` carries a limit that it read before it took the lock: a grant that is deleted or
lowered in between is overlooked (`not_revocationSafe`). Where no locked block runs with a limit that
a change has overtaken (`LimitStands`), revocation takes effect at once
(`revocationSafe_of_limitStands`).
-/

namespace Embassy
open Lib

/-- Every queued action belongs to a client that holds a grant. -/
def PendingGranted (w : World) : Prop :=
  ∀ a p, w.store.tier3Pending.get? a = some p → w.Holds p.clientId

/-- A reservation or a queue entry for the client. -/
def Call.Gains (c : String) : Call → Prop
  | .reserved _ e => e.clientId = c
  | .queued p => p.clientId = c
  | _ => False

/-- A reservation has a grant in force in `w`, and one within the mandate has room in it. -/
def Call.Honours (env : Env) (w : World) : Call → Prop
  | .reserved true e => w.Holds e.clientId
  | .reserved false e => ∃ limit, w.store.tier3Grants.get? e.clientId = some limit ∧
      w.usedCents env e.clientId + e.amountCents ≤ limit
  | _ => True

def NoGrant (c : String) (act : Act) : Prop := ∀ limit, act ≠ .putGrant c limit

/-- What is promised in a state `w` of a run whose steps all meet `ok`. -/
structure RevocationSafe (env : Env) (ok : World → Act → Prop) (w : World) : Prop where
  /-- The next step only reserves what the grants in force allow. -/
  honoured : ∀ act w' cs, ok w act → step env w act = some w' → w'.trace = w.trace ++ cs →
    ∀ call ∈ cs, call.Honours env w
  /-- Every queued action belongs to a client that holds a grant. -/
  pending_granted : PendingGranted w
  /-- From a deleted grant to the next one nothing is reserved or queued. -/
  revoked : ∀ c w₁ w₂ cs, step env w (.deleteGrant c) = some w₁ →
    Reaches (step env) (fun w act => ok w act ∧ NoGrant c act) w₁ w₂ → w₂.trace = w₁.trace ++ cs →
    ∀ call ∈ cs, ¬ call.Gains c

/-- The limit an order read before the lock does not let it through where the grant in force would
not. -/
def LimitStands (env : Env) (w : World) : Act → Prop
  | .reserve i => ∀ o limit, w.handlers i = some (.limitRead o limit) →
      match w.store.tier3Grants.get? o.clientId with
      | some inForce => limit < w.usedCents env o.clientId + o.body.amountCents ∨
          w.usedCents env o.clientId + o.body.amountCents ≤ inForce
      -- over its limit, and nothing is ever queued
      | none => limit < w.usedCents env o.clientId + o.body.amountCents ∧ env.pendingMaxPerClient = 0
  | _ => True

section
variable {env : Env} {w w' w₀ : World} {act : Act} {c : String} {o : Order} {limit : ℕ}

/-- Since `w₀` only calls in `Q` were made. -/
def Adds (w₀ : World) (Q : Call → Prop) (w : World) : Prop :=
  ∃ cs, w.trace = w₀.trace ++ cs ∧ ∀ call ∈ cs, Q call

theorem Adds.refl (w : World) (Q : Call → Prop) : Adds w Q w := ⟨[], by simp, by simp⟩

theorem Adds.call {Q : Call → Prop} {call : Call} (h : Adds w₀ Q w) (hQ : Q call) :
    Adds w₀ Q (w.call env call) := by
  obtain ⟨cs, hcs, hall⟩ := h
  refine ⟨cs ++ [call], ?_, ?_⟩
  · show w.trace ++ [call] = _
    rw [hcs, List.append_assoc]
  · simpa [or_imp, forall_and] using ⟨hall, hQ⟩

theorem Adds.trans {Q : Call → Prop} (h : Adds w₀ Q w) (h' : Adds w Q w') : Adds w₀ Q w' := by
  obtain ⟨cs, hcs, hall⟩ := h
  obtain ⟨cs', hcs', hall'⟩ := h'
  refine ⟨cs ++ cs', by rw [hcs', hcs, List.append_assoc], fun call hmem => ?_⟩
  exact (List.mem_append.1 hmem).elim (hall call) (hall' call)

theorem Adds.of_append {Q : Call → Prop} (h : Adds w₀ Q w) {cs : List Call}
    (hcs : w.trace = w₀.trace ++ cs) : ∀ call ∈ cs, Q call := by
  obtain ⟨cs', hcs', hall⟩ := h
  rwa [List.append_cancel_left (hcs.symm.trans hcs')]

theorem stable_adds (Q : Call → Prop) (w₀ : World) : Stable env Q (Adds w₀ Q) where
  tick h := h
  call hc _ h := h.call hc
  read {w _} hc _ h := Adds.call (w := w.tick) h hc

theorem World.holds_call {call : Call} (hc : call ≠ .ungranted c) (h : w.Holds c) :
    (w.call env call).Holds c := by
  cases call with
  | granted c' limit =>
    show ∃ l, (w.store.tier3Grants.set c' limit).get? c = some l
    rw [Dict.get?_set]
    split
    · exact ⟨_, rfl⟩
    · exact h
  | ungranted c' =>
    show ∃ l, (w.store.tier3Grants.erase c').get? c = some l
    rw [Dict.get?_erase, if_neg fun heq => hc (by rw [heq])]
    exact h
  | _ => exact h

theorem World.holds_of_call {call : Call} (hc : ∀ limit, call ≠ .granted c limit)
    (h : (w.call env call).Holds c) : w.Holds c := by
  cases call with
  | granted c' limit =>
    change ∃ l, (w.store.tier3Grants.set c' limit).get? c = some l at h
    rwa [Dict.get?_set, if_neg fun heq => hc limit (by rw [heq])] at h
  | ungranted c' =>
    change ∃ l, (w.store.tier3Grants.erase c').get? c = some l at h
    rw [Dict.get?_erase] at h
    split at h
    · obtain ⟨l, hl⟩ := h; cases hl
    · exact h
  | _ => exact h

theorem stable_not_holds (c : String) :
    Stable env (fun call => ∀ limit, call ≠ .granted c limit) fun w => ¬ w.Holds c where
  tick h := h
  call hc _ h h' := h (World.holds_of_call hc h')
  read hc _ h h' := h (World.holds_of_call (w := World.tick _) hc h')

theorem stable_pendingGranted (w₀ : World) :
    Stable env (fun call => (∀ p, call = .queued p → w₀.Holds p.clientId) ∧ ∀ c, call ≠ .ungranted c)
      fun w => (∀ c, w₀.Holds c → w.Holds c) ∧ PendingGranted w := by
  have hcall : ∀ {w : World} {call : Call},
      (∀ p, call = .queued p → w₀.Holds p.clientId) ∧ (∀ c, call ≠ .ungranted c) →
      (∀ c, w₀.Holds c → w.Holds c) ∧ PendingGranted w →
      (∀ c, w₀.Holds c → (w.call env call).Holds c) ∧ PendingGranted (w.call env call) := by
    intro w call hc h
    refine ⟨fun c hh => World.holds_call (hc.2 c) (h.1 c hh), fun a p hp => ?_⟩
    refine World.holds_call (hc.2 _) ?_
    cases call with
    | queued q =>
      change (w.store.tier3Pending.set q.actionId q).get? a = some p at hp
      rw [Dict.get?_set] at hp
      split at hp
      · obtain rfl := Option.some.inj hp; exact h.1 _ (hc.1 q rfl)
      · exact h.2 a p hp
    | popped exit now q =>
      change (w.store.tier3Pending.erase q.actionId).get? a = some p at hp
      rw [Dict.get?_erase] at hp
      split at hp
      · cases hp
      · exact h.2 a p hp
    | _ => exact h.2 a p hp
  exact ⟨id, fun hc _ => hcall hc, fun hc _ => hcall (w := World.tick _) hc⟩

theorem pendingGranted_deleteTier3Grant {handlers : ℕ → Option Handler} (hg : Good env w handlers)
    (h : PendingGranted w) (c : String) : PendingGranted (w.deleteTier3Grant env c) := by
  have hg₀ := hg.call (c := .ungranted c) rfl trivial
  have hg₁ := hg₀.prune.1
  intro a p hp
  change ((((w.call env (.ungranted c)).pruneTier3Pending env).pendingOf c).foldl _
    ((w.call env (.ungranted c)).pruneTier3Pending env)).store.tier3Pending.get? a = some p at hp
  rw [World.revoke, World.get?_pending_foldl_close] at hp
  split at hp <;> rename_i hmem
  · cases hp
  · have hne : p.clientId ≠ c := fun hc => hmem (List.mem_map.2 ⟨p, List.mem_filter.2
      ⟨Dict.mem_values_iff.2 ⟨a, hp⟩, by simpa using hc⟩, hg₁.keyed a p hp⟩)
    rw [World.get?_pending_prune hg₀.keyed, Option.filter_eq_some_iff] at hp
    have hholds : (w.call env (.ungranted c)).Holds p.clientId :=
      World.holds_call (by rintro ⟨⟩; exact hne rfl) (h a p hp.1)
    obtain ⟨limit, hlimit⟩ := hholds
    refine ⟨limit, ?_⟩
    rw [World.deleteTier3Grant, World.revoke, World.grants_foldl_close, World.grants_prune]
    exact hlimit

theorem not_holds_deleteTier3Grant (w : World) (c : String) : ¬ (w.deleteTier3Grant env c).Holds c := by
  rintro ⟨limit, hlimit⟩
  rw [World.deleteTier3Grant, World.revoke, World.grants_foldl_close, World.grants_prune] at hlimit
  change (w.store.tier3Grants.erase c).get? c = some limit at hlimit
  rw [Dict.get?_erase_self] at hlimit
  cases hlimit

/-! ### Steps -/

theorem holds_of_prune (h : (w.pruneTier3Pending env).Holds c) : w.Holds c := by
  obtain ⟨limit, hlimit⟩ := h
  exact ⟨limit, by rwa [World.grants_prune] at hlimit⟩

theorem honours_of_limitStands {i : ℕ} (hok : LimitStands env w (.reserve i))
    (hi : w.handlers i = some (.limitRead o limit))
    (hlim : w.usedCents env o.clientId + o.body.amountCents ≤ limit) :
    ∃ inForce, w.store.tier3Grants.get? o.clientId = some inForce ∧
      w.usedCents env o.clientId + o.body.amountCents ≤ inForce := by
  have hok := hok o limit hi
  split at hok
  · rename_i inForce hforce
    exact ⟨inForce, hforce, hok.resolve_left (not_lt.2 hlim)⟩
  · exact absurd hok.1 (not_lt.2 hlim)

theorem holds_of_limitStands {i : ℕ} (hok : LimitStands env w (.reserve i))
    (hi : w.handlers i = some (.limitRead o limit)) (hpos : 0 < env.pendingMaxPerClient) :
    w.Holds o.clientId := by
  have hok := hok o limit hi
  split at hok
  · rename_i inForce hforce
    exact ⟨inForce, hforce⟩
  · exact absurd hok.2 hpos.ne'

theorem adds_honours (hok : LimitStands env w act) (hw : step env w act = some w') :
    Adds w (Call.Honours env w) w' := by
  refine (stable_adds (Call.Honours env w) w).step_of (fun _ _ h => h) (fun call hc hres hq => ?_)
    (fun i o limit hact hi => ?_) (fun i a hact e he => holds_of_prune he) (Adds.refl w _) hw
  · cases call with
    | reserved b e => exact absurd rfl (hres b e)
    | _ => trivial
  · subst hact
    exact ⟨fun hlim _ _ => honours_of_limitStands hok hi hlim, fun _ _ _ => trivial⟩

theorem pendingGranted_step (hg : Good env w w.handlers) (hok : LimitStands env w act)
    (h : PendingGranted w) (hw : step env w act = some w') : PendingGranted w' := by
  by_cases hact : ∃ c, act = .deleteGrant c
  · obtain ⟨c, rfl⟩ := hact
    obtain rfl := Option.some.inj hw
    exact pendingGranted_deleteTier3Grant hg h c
  · have hkeep : (∀ c, w.Holds c → w'.Holds c) ∧ PendingGranted w' := by
      refine (stable_pendingGranted w).step_of (fun _ _ h => h) (fun call hc _ hq =>
        ⟨fun p hp => absurd hp (hq p), fun c => ?_⟩) (fun i o limit heq hi => ?_)
        (fun _ _ _ _ _ => ⟨by rintro _ ⟨⟩, by rintro _ ⟨⟩⟩) ⟨fun _ => id, h⟩ hw
      · rintro rfl
        cases act with
        | deleteGrant c' => exact hact ⟨c', rfl⟩
        | _ => exact hc
      · subst heq
        refine ⟨fun _ _ _ => ⟨by rintro _ ⟨⟩, by rintro _ ⟨⟩⟩, fun _ hpos _ => ⟨?_, by rintro _ ⟨⟩⟩⟩
        rintro p ⟨⟩
        exact holds_of_limitStands hok hi hpos
    exact hkeep.2

theorem pendingOf_eq_nil (h : PendingGranted w) (hc : ¬ w.Holds c) : w.pendingOf c = [] := by
  refine List.filter_eq_nil_iff.2 fun p hp hpc => hc ?_
  obtain ⟨a, ha⟩ := Dict.mem_values_iff.1 hp
  obtain rfl : p.clientId = c := of_decide_eq_true hpc
  exact h a p ha

theorem limitStands_of_honours (h : PendingGranted w) (hw : step env w act = some w')
    (hh : Adds w (Call.Honours env w) w') (hp : PendingGranted w') : LimitStands env w act := by
  cases act with
  | reserve i =>
    intro o limit hi
    simp only [step, hi] at hw
    obtain rfl := Option.some.inj hw
    have hprune : PendingGranted (w.tick.pruneTier3Pending env) :=
      ((stable_pendingGranted w).pruneTier3Pending (w := w.tick) (fun call hc => ⟨fun p => by
        rintro rfl; exact hc.elim, fun c => by rintro rfl; exact hc⟩) ⟨fun _ => id, h⟩).2
    rcases w.reserveOrQueue_cases env o limit with ⟨hlim, heq⟩ | ⟨hlim, hfull, -⟩ | ⟨hlim, -, reason, heq⟩
    · obtain ⟨inForce, hforce, hroom⟩ := hh.of_append (congrArg World.trace heq) _
        (List.mem_singleton_self _)
      rw [show w.store.tier3Grants.get? o.clientId = some inForce from hforce]
      exact .inr hroom
    · split
      · exact .inl hlim
      · rename_i hnone
        have hnot : ¬ (w.tick.pruneTier3Pending env).Holds o.clientId := fun hholds => by
          obtain ⟨limit, hlimit⟩ := holds_of_prune hholds
          exact absurd hlimit (by rw [show w.tick.store = w.store from rfl, hnone]; rintro ⟨⟩)
        rw [pendingOf_eq_nil hprune hnot] at hfull
        exact ⟨hlim, Nat.le_zero.1 hfull⟩
    · have hentry : (w.reserveOrQueue env o limit).1.store.tier3Pending.get? o.actionId =
          some (queuedAction env.toTier3Config ((w.tick.pruneTier3Pending env).now env) o.actionId
            o.clientId o.body) := by
        rw [heq]; exact Dict.get?_set_self ..
      obtain ⟨inForce, hforce⟩ := hp _ _ hentry
      have hgrants : (w.reserveOrQueue env o limit).1.store.tier3Grants = w.store.tier3Grants := by
        rw [heq]
        calc _ = (w.tick.pruneTier3Pending env).store.tier3Grants := rfl
          _ = w.store.tier3Grants := World.grants_prune
      change (w.reserveOrQueue env o limit).1.store.tier3Grants.get? o.clientId = some inForce at hforce
      rw [hgrants] at hforce
      rw [hforce]
      exact .inl hlim
  | _ => trivial

/-- A step keeps the promises exactly if no limit it uses is overtaken. -/
theorem limitStands_iff (hg : Good env w w.handlers) (h : PendingGranted w)
    (hw : step env w act = some w') :
    LimitStands env w act ↔ Adds w (Call.Honours env w) w' ∧ PendingGranted w' :=
  ⟨fun hok => ⟨adds_honours hok hw, pendingGranted_step hg hok h hw⟩,
    fun hh => limitStands_of_honours h hw hh.1 hh.2⟩

theorem adds_not_gains (hc : ¬ w.Holds c) (hok : LimitStands env w act)
    (hw : step env w act = some w') : Adds w (fun call => ¬ call.Gains c) w' := by
  refine (stable_adds _ w).step_of (fun _ _ h => h) (fun call _ hres hq => ?_)
    (fun i o limit hact hi => ?_) (fun i a _ e he hgain => ?_) (Adds.refl w _) hw
  · cases call with
    | reserved b e => exact absurd rfl (hres b e)
    | queued p => exact absurd rfl (hq p)
    | _ => exact id
  · subst hact
    refine ⟨fun hlim _ _ hgain => ?_, fun _ hpos _ hgain => ?_⟩
    · obtain ⟨inForce, hforce, -⟩ := honours_of_limitStands hok hi hlim
      exact hc ⟨inForce, by rwa [← show o.clientId = c from hgain]⟩
    · have hholds := holds_of_limitStands hok hi hpos
      exact hc (by rwa [← show o.clientId = c from hgain])
  · exact hc (by rw [← show e.clientId = c from hgain]; exact holds_of_prune he)

theorem not_holds_step (hc : ¬ w.Holds c) (hok : NoGrant c act) (hw : step env w act = some w') :
    ¬ w'.Holds c := by
  refine (stable_not_holds c).step (fun _ _ h => h) (fun call hcall limit => ?_) hc hw
  rintro rfl
  cases act with
  | putGrant c' limit' => obtain ⟨rfl, rfl⟩ := hcall; exact hok _ rfl
  | _ => exact hcall

end

/-- Where no order's limit is overtaken, revocations and limit changes take effect at once. -/
theorem revocationSafe_of_limitStands (env : Env) (w : World)
    (hr : Reaches (step env) (LimitStands env) .init w) : RevocationSafe env (LimitStands env) w := by
  have hinit : Good env .init World.init.handlers ∧ PendingGranted .init := ⟨Good.init, by rintro a p ⟨⟩⟩
  have hI : Good env w w.handlers ∧ PendingGranted w :=
    hr.invariant (I := fun w => Good env w w.handlers ∧ PendingGranted w) hinit
      fun _ _ _ h hok hw => ⟨h.1.step hw, ((limitStands_iff h.1 h.2 hw).1 hok).2⟩
  refine ⟨fun act w' cs hok hw => ((limitStands_iff hI.1 hI.2 hw).1 hok).1.of_append, hI.2,
    fun c w₁ w₂ cs hdel hreach hcs => ?_⟩
  obtain rfl := Option.some.inj hdel
  have hrun : ¬ w₂.Holds c ∧ Adds (w.deleteTier3Grant env c) (fun call => ¬ call.Gains c) w₂ :=
    hreach.invariant (I := fun v => ¬ v.Holds c ∧
      Adds (w.deleteTier3Grant env c) (fun call => ¬ call.Gains c) v)
      ⟨not_holds_deleteTier3Grant w c, Adds.refl _ _⟩
      fun _ _ _ h hok hw => ⟨not_holds_step h.1 hok.2 hw, h.2.trans (adds_not_gains h.1 hok.1 hw)⟩
  exact hrun.2.of_append hcs

/-- An order of `partner-a`, up to its unlocked read of a grant of 500. -/
def readActs : List Act :=
  [.putGrant "partner-a" 500] ++ arrive 0 "partner-a" "act-1" (chair 300 chair_range)

theorem revocationSafe_of_limitStands_reserved : ∃ w h, w.handlers 0 = some (.reserved h) ∧
    RevocationSafe (.ticking ⟨100, 50, 100, 10, 100, 50⟩)
      (LimitStands (.ticking ⟨100, 50, 100, 10, 100, 50⟩)) w := by
  let env : Env := .ticking ⟨100, 50, 100, 10, 100, 50⟩
  let o : Order := ⟨"act-1", "partner-a", chair 300 chair_range⟩
  have hok : ∀ a ∈ readActs, ∀ w, LimitStands env w a := by
    intro a ha w
    cases a with
    | reserve => simp [readActs, arrive] at ha
    | _ => trivial
  obtain ⟨w, hw, hp⟩ := exists_reaches_of_run (step env) (LimitStands env) .init readActs
    (fun w => decide (w.handlers 0 = some (.limitRead o 500) ∧
      w.store.tier3Grants.get? "partner-a" = some 500 ∧ w.usedCents env "partner-a" = 0)) hok (by decide)
  obtain ⟨hi, hgrant, hused⟩ := of_decide_eq_true hp
  have hstands : LimitStands env w (.reserve 0) := by
    intro o' limit hi'
    obtain ⟨rfl, rfl⟩ : o = o' ∧ 500 = limit := by simpa using hi.symm.trans hi'
    rw [show w.store.tier3Grants.get? o.clientId = some 500 from hgrant,
      show w.usedCents env o.clientId = 0 from hused]
    exact .inr (by decide)
  have hres : (w.reserveOrQueue env o 500).2 = .reserved ⟨o, 500, 0, false⟩ := by
    unfold World.reserveOrQueue
    rw [show w.usedCents env o.clientId = 0 from hused]
    rfl
  have hstep : step env w (.reserve 0) =
      some ((w.reserveOrQueue env o 500).1.goto 0 (.reserved ⟨o, 500, 0, false⟩)) := by
    rw [← hres]; simp only [step, hi]
  have hreserved : ((w.reserveOrQueue env o 500).1.goto 0 (.reserved ⟨o, 500, 0, false⟩)).handlers 0 =
      some (.reserved ⟨o, 500, 0, false⟩) := by simp [World.goto]
  exact ⟨_, _, hreserved, revocationSafe_of_limitStands env _ (hw.snoc hstands hstep)⟩

/-- The grant is deleted between the unlocked read and the locked block, which reserves all the same. -/
theorem not_revocationSafe : ¬ ∀ env w, Reaches (step env) anyAct .init w →
    RevocationSafe env anyAct w := by
  intro hsafe
  let env : Env := .ticking ⟨100, 50, 100, 10, 100, 50⟩
  let o : Order := ⟨"act-1", "partner-a", chair 300 chair_range⟩
  obtain ⟨w, hw, hp⟩ := exists_reaches_of_run (step env) anyAct .init
    (readActs ++ [.deleteGrant "partner-a"])
    (fun w => decide (w.handlers 0 = some (.limitRead o 500) ∧
      w.store.tier3Grants.get? "partner-a" = none ∧ w.usedCents env "partner-a" = 0))
    (fun _ _ _ => trivial) (by decide)
  obtain ⟨hi, hgrant, hused⟩ := of_decide_eq_true hp
  have hres : (w.reserveOrQueue env o 500).1 =
      w.tick.reserve env o false "within mandate -- handoff in progress" := by
    unfold World.reserveOrQueue
    rw [show w.usedCents env o.clientId = 0 from hused]
    rfl
  have hstep : step env w (.reserve 0) =
      some ((w.reserveOrQueue env o 500).1.goto 0 (w.reserveOrQueue env o 500).2) := by
    simp only [step, hi]
  obtain ⟨limit, hlimit, -⟩ := (hsafe env w hw).honoured (.reserve 0) _ [_] trivial hstep
    (congrArg World.trace hres) _ (List.mem_singleton_self _)
  cases hgrant.symm.trans hlimit

end Embassy
