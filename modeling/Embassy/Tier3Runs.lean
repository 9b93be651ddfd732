import Embassy.Tier3Orders

/-!
# What every step of the Tier 3 endpoints keeps

Whatever an endpoint does is a sequence of clock readings and calls, and the endpoint determines
which kinds of calls it can make (`Act.Makes`). A property that those keep (`Stable`) is kept by every
step (`Stable.step`). First uses: the store is what the trace says (`stable_store_eq`), the trace only
grows, and its readings are in order (`Timed`).
-/

namespace Embassy
open Lib

/-- The calls of `prune_tier3_pending`, which nearly every endpoint runs, and audit events. -/
def Call.Basic : Call → Prop
  | .recorded _ | .popped .. | .resolved .. => True
  | _ => False

/-- The calls an endpoint may make besides. -/
def Act.Makes : Act → Call → Prop
  | .readLimit .., .minted _ => True
  | .reserve _, .reserved approvedByHuman _ => approvedByHuman = false
  | .reserve _, .queued _ => True
  | .handOff _, .handedOff _ => True
  | .settle .., .settled .. => True
  | .approve .., .reserved approvedByHuman _ => approvedByHuman = true
  | .putGrant c limit, .granted c' limit' => c' = c ∧ limit' = limit
  | .deleteGrant c, .ungranted c' => c' = c
  | .pollRead _, .looked .. => True
  | _, c => c.Basic

theorem Act.makes_of_basic {act : Act} {c : Call} (h : c.Basic) : act.Makes c := by
  cases c <;> first | exact h.elim | (cases act <;> trivial)

def World.Holds (w : World) (c : String) : Prop := ∃ limit, w.store.tier3Grants.get? c = some limit

namespace World

theorem reserveOrQueue_cases (env : Env) (o : Order) (limit : ℕ) (w : World) :
    (w.usedCents env o.clientId + o.body.amountCents ≤ limit ∧ (w.reserveOrQueue env o limit).1 =
        w.tick.reserve env o false "within mandate -- handoff in progress") ∨
    (limit < w.usedCents env o.clientId + o.body.amountCents ∧
      env.pendingMaxPerClient ≤ ((w.tick.pruneTier3Pending env).pendingOf o.clientId).length ∧
      (w.reserveOrQueue env o limit).1 = w.tick.pruneTier3Pending env) ∨
    (limit < w.usedCents env o.clientId + o.body.amountCents ∧ 0 < env.pendingMaxPerClient ∧
      ∃ reason, (w.reserveOrQueue env o limit).1 =
        (((w.tick.pruneTier3Pending env).queueTier3Action env o).recordTier3Event env o.clientId
          o.body.item o.body.amountCents .queued reason (some o.actionId)).setTier3Resolution env
          o.actionId o.clientId .queued "awaiting human approval" none none) := by
  unfold reserveOrQueue
  simp only
  split <;> rename_i hlim
  · exact .inl ⟨hlim, rfl⟩
  · split <;> rename_i hfull
    · exact .inr (.inl ⟨not_le.1 hlim, hfull, rfl⟩)
    · exact .inr (.inr ⟨not_le.1 hlim, Nat.zero_lt_of_lt (not_le.1 hfull), _, rfl⟩)

/-- The locked block of an approval only reserves where there is a grant. -/
theorem approveTier3Action_cases (env : Env) (a : String) (w : World) :
    (w.approveTier3Action env a).1 = w.pruneTier3Pending env ∨
    (∃ p, (w.approveTier3Action env a).1 =
      (w.pruneTier3Pending env).refuseApproval env (w.now env) p) ∨
    (∃ p, (w.pruneTier3Pending env).Holds p.clientId ∧ (w.approveTier3Action env a).1 =
      (((w.pruneTier3Pending env).call env (.popped .approve (w.now env) p)).tick.reserve env p.order
        true "approved by human -- handoff in progress")) := by
  unfold approveTier3Action
  simp only
  split
  · exact .inl rfl
  · split <;> rename_i hlim
    · exact .inr (.inl ⟨_, rfl⟩)
    · exact .inr (.inr ⟨_, ⟨_, hlim⟩, rfl⟩)

end World

/-- `set_tier3_resolution` makes an entry exactly where there is none. -/
def Call.Marked (s : Tier3Store) : Call → Prop
  | .resolved created r => created = (s.tier3Resolutions.get? r.actionId).isNone
  | _ => True

/-- The call takes the next reading of the clock. -/
def Call.Reads (env : Env) (w : World) (c : Call) : Prop :=
  c.time? = some (w.now env) ∧ c.Marked w.store

/-- A property of worlds that clock readings and the calls in `Q` keep. -/
structure Stable (env : Env) (Q : Call → Prop) (P : World → Prop) : Prop where
  tick : ∀ {w}, P w → P w.tick
  call : ∀ {w c}, Q c → c.time? = none → P w → P (w.call env c)
  read : ∀ {w c}, Q c → c.Reads env w → P w → P (w.tick.call env c)

namespace Stable
variable {env : Env} {Q : Call → Prop} {P : World → Prop} {w w' : World}

theorem close (hs : Stable env Q P) (hQ : ∀ c, c.Basic → Q c) (exit : Exit) (now : ℤ)
    (outcome : Outcome) (reason : String) (status : ResolutionStatus) (detail : String)
    (p : Tier3PendingAction) (h : P w) : P (w.close env exit now outcome reason status detail p) :=
  hs.read (hQ _ trivial) ⟨rfl, rfl⟩
    (hs.read (hQ _ trivial) ⟨rfl, trivial⟩ (hs.call (hQ _ trivial) rfl h))

theorem foldl_close (hs : Stable env Q P) (hQ : ∀ c, c.Basic → Q c) (exit : Exit) (now : ℤ)
    (outcome : Outcome) (reason : String) (status : ResolutionStatus) (detail : String)
    (ps : List Tier3PendingAction) (h : P w) :
    P (ps.foldl (World.close env exit now outcome reason status detail) w) := by
  induction ps generalizing w with
  | nil => exact h
  | cons p ps ih => exact ih (hs.close hQ _ _ _ _ _ _ p h)

theorem pruneTier3Pending (hs : Stable env Q P) (hQ : ∀ c, c.Basic → Q c) (h : P w) :
    P (w.pruneTier3Pending env) := hs.foldl_close hQ _ _ _ _ _ _ _ (hs.tick h)

/-- The locked block of an order, where each of its three ends makes calls in `Q`. -/
theorem reserveOrQueue_of (hs : Stable env Q P) (hQ : ∀ c, c.Basic → Q c) {o : Order} {limit : ℕ}
    (hreserved : w.usedCents env o.clientId + o.body.amountCents ≤ limit →
      ∀ now reason, Q (.reserved false (o.event now .accepted reason)))
    (hqueued : limit < w.usedCents env o.clientId + o.body.amountCents → 0 < env.pendingMaxPerClient →
      ∀ now, Q (.queued (queuedAction env.toTier3Config now o.actionId o.clientId o.body)))
    (h : P w) : P (w.reserveOrQueue env o limit).1 := by
  have hprune : P (w.tick.pruneTier3Pending env) := hs.pruneTier3Pending hQ (hs.tick h)
  rcases w.reserveOrQueue_cases env o limit with ⟨hlim, heq⟩ | ⟨-, -, heq⟩ | ⟨hlim, hpos, reason, heq⟩
  · rw [heq]; exact hs.read (hreserved hlim _ _) ⟨rfl, trivial⟩ (hs.tick h)
  · rw [heq]; exact hprune
  · rw [heq]
    have hqueue := hs.read (hqueued hlim hpos _) ⟨rfl, trivial⟩ hprune
    exact hs.read (hQ _ trivial) ⟨rfl, rfl⟩ (hs.read (hQ _ trivial) ⟨rfl, trivial⟩ hqueue)

theorem reserveOrQueue (hs : Stable env Q P) (i : ℕ) (hQ : ∀ c, (Act.reserve i).Makes c → Q c)
    (o : Order) (limit : ℕ) (h : P w) : P (w.reserveOrQueue env o limit).1 :=
  hs.reserveOrQueue_of (fun c hc => hQ c (Act.makes_of_basic hc)) (fun _ _ _ => hQ _ rfl)
    (fun _ _ _ => hQ _ trivial) h

/-- The locked block of an approval, where a reservation of a client with a grant is in `Q`. -/
theorem approveTier3Action_of (hs : Stable env Q P) (hQ : ∀ c, c.Basic → Q c) (actionId : String)
    (hreserved : ∀ e, (w.pruneTier3Pending env).Holds e.clientId → Q (.reserved true e)) (h : P w) :
    P (w.approveTier3Action env actionId).1 := by
  have hprune := hs.pruneTier3Pending hQ h
  rcases w.approveTier3Action_cases env actionId with heq | ⟨p, heq⟩ | ⟨p, hp, heq⟩
  · rw [heq]; exact hprune
  · rw [heq]; exact hs.close hQ _ _ _ _ _ _ _ hprune
  · rw [heq]; exact hs.read (hreserved _ hp) ⟨rfl, trivial⟩
      (hs.tick (hs.call (hQ _ trivial) rfl hprune))

theorem approveTier3Action (hs : Stable env Q P) (i : ℕ) (actionId : String)
    (hQ : ∀ c, (Act.approve i actionId).Makes c → Q c) (h : P w) :
    P (w.approveTier3Action env actionId).1 :=
  hs.approveTier3Action_of (fun c hc => hQ c (Act.makes_of_basic hc)) actionId (fun _ _ => hQ _ rfl) h

theorem rejectTier3Action (hs : Stable env Q P) (hQ : ∀ c, c.Basic → Q c) (actionId : String)
    (h : P w) : P (w.rejectTier3Action env actionId).1 := by
  have hprune := hs.pruneTier3Pending hQ h
  unfold World.rejectTier3Action
  simp only
  split
  · exact hprune
  · exact hs.close hQ _ _ _ _ _ _ _ hprune

theorem deleteTier3Grant (hs : Stable env Q P) {c : String}
    (hQ : ∀ call, (Act.deleteGrant c).Makes call → Q call) (h : P w) :
    P (w.deleteTier3Grant env c) := by
  have hbasic : ∀ c, c.Basic → Q c := fun c hc => hQ c (Act.makes_of_basic hc)
  exact hs.foldl_close hbasic _ _ _ _ _ _ _ (hs.pruneTier3Pending hbasic (hs.call (hQ _ rfl) rfl h))

/-- What the calls an endpoint can make keep, its step keeps. -/
theorem step (hs : Stable env Q P) (hgoto : ∀ {w} i h, P w → P (w.goto i h)) {act : Act}
    (hQ : ∀ c, act.Makes c → Q c) (h : P w) (hw : step env w act = some w') : P w' := by
  have hbasic : ∀ c, c.Basic → Q c := fun c hc => hQ c (Act.makes_of_basic hc)
  cases act with
  | order i limited headers introspect body =>
    simp only [Embassy.step] at hw
    split at hw <;> [cases hw; skip]
    split at hw
    · obtain rfl := Option.some.inj hw; exact hgoto _ _ h
    · split at hw <;> obtain rfl := Option.some.inj hw
      · exact hgoto _ _ (hs.read (hbasic _ trivial) ⟨rfl, trivial⟩ h)
      · exact hgoto _ _ h
  | readLimit i actionId =>
    simp only [Embassy.step] at hw
    split at hw <;> [skip; cases hw]
    split at hw
    · obtain rfl := Option.some.inj hw; exact hgoto _ _ h
    · split at hw <;> [skip; cases hw]
      obtain rfl := Option.some.inj hw
      exact hgoto _ _ (hs.call (hQ _ trivial) rfl h)
  | reserve i =>
    simp only [Embassy.step] at hw
    split at hw <;> [skip; cases hw]
    obtain rfl := Option.some.inj hw
    exact hgoto _ _ (hs.reserveOrQueue i hQ _ _ h)
  | turnAway i =>
    simp only [Embassy.step] at hw
    split at hw <;> [skip; cases hw]
    obtain rfl := Option.some.inj hw
    exact hgoto _ _ (hs.read (hbasic _ trivial) ⟨rfl, trivial⟩ h)
  | answerQueued i =>
    simp only [Embassy.step] at hw
    split at hw <;> [skip; cases hw]
    split at hw <;> obtain rfl := Option.some.inj hw <;> exact hgoto _ _ h
  | handOff i =>
    simp only [Embassy.step] at hw
    split at hw <;> [skip; cases hw]
    obtain rfl := Option.some.inj hw
    exact hgoto _ _ (hs.call (hQ _ trivial) rfl h)
  | settle i result =>
    simp only [Embassy.step] at hw
    split at hw <;> [skip; skip; cases hw] <;> obtain rfl := Option.some.inj hw
    · exact hgoto _ _ (hs.call (hQ _ trivial) rfl h)
    · exact hgoto _ _ h
  | resolve i =>
    simp only [Embassy.step] at hw
    split at hw <;> [skip; cases hw]
    obtain rfl := Option.some.inj hw
    exact hgoto _ _ (hs.read (hbasic _ trivial) ⟨rfl, rfl⟩ h)
  | approve i actionId =>
    simp only [Embassy.step] at hw
    split at hw <;> [skip; cases hw]
    obtain rfl := Option.some.inj hw
    exact hgoto _ _ (hs.approveTier3Action i actionId hQ h)
  | reject i actionId =>
    simp only [Embassy.step] at hw
    split at hw <;> [skip; cases hw]
    obtain rfl := Option.some.inj hw
    exact hgoto _ _ (hs.rejectTier3Action hbasic _ h)
  | putGrant c limit =>
    obtain rfl := Option.some.inj hw
    exact hs.call (hQ _ ⟨rfl, rfl⟩) rfl h
  | deleteGrant c =>
    obtain rfl := Option.some.inj hw
    exact hs.deleteTier3Grant hQ h
  | listApprovals =>
    obtain rfl := Option.some.inj hw
    exact hs.pruneTier3Pending hbasic h
  | poll i limited headers introspect actionId =>
    simp only [Embassy.step] at hw
    split at hw <;> [cases hw; skip]
    split at hw
    · obtain rfl := Option.some.inj hw; exact hgoto _ _ h
    · split at hw <;> obtain rfl := Option.some.inj hw
      · exact hgoto _ _ h
      · exact hgoto _ _ (hs.pruneTier3Pending hbasic h)
  | pollRead i =>
    simp only [Embassy.step] at hw
    split at hw <;> [skip; cases hw]
    have hlooked := fun a => hs.read (c := .looked (w.now env) a) (hQ _ trivial) ⟨rfl, trivial⟩ h
    split at hw
    · split at hw <;> obtain rfl := Option.some.inj hw <;> exact hgoto _ _ (hlooked _)
    · obtain rfl := Option.some.inj hw; exact hgoto _ _ (hlooked _)

/-- The same, where what the locked blocks reserve and queue depends on the state they find. -/
theorem step_of (hs : Stable env Q P) (hgoto : ∀ {w} i h, P w → P (w.goto i h)) {act : Act}
    (hQ : ∀ c, act.Makes c → (∀ b e, c ≠ .reserved b e) → (∀ p, c ≠ .queued p) → Q c)
    (hreserve : ∀ i o limit, act = .reserve i → w.handlers i = some (.limitRead o limit) →
      (w.usedCents env o.clientId + o.body.amountCents ≤ limit →
        ∀ now reason, Q (.reserved false (o.event now .accepted reason))) ∧
      (limit < w.usedCents env o.clientId + o.body.amountCents → 0 < env.pendingMaxPerClient →
        ∀ now, Q (.queued (queuedAction env.toTier3Config now o.actionId o.clientId o.body))))
    (happrove : ∀ i a, act = .approve i a →
      ∀ e, (w.pruneTier3Pending env).Holds e.clientId → Q (.reserved true e))
    (h : P w) (hw : Embassy.step env w act = some w') : P w' := by
  have hbasic : ∀ c, c.Basic → Q c := fun c hc => hQ c (Act.makes_of_basic hc)
    (by rintro b e rfl; exact hc) (by rintro p rfl; exact hc)
  cases act with
  | reserve i =>
    simp only [Embassy.step] at hw
    split at hw <;> [rename_i o limit hi; cases hw]
    obtain rfl := Option.some.inj hw
    obtain ⟨hres, hqueue⟩ := hreserve i o limit rfl hi
    exact hgoto _ _ (hs.reserveOrQueue_of hbasic hres hqueue h)
  | approve i a =>
    simp only [Embassy.step] at hw
    split at hw <;> [skip; cases hw]
    obtain rfl := Option.some.inj hw
    exact hgoto _ _ (hs.approveTier3Action_of hbasic a (happrove i a rfl) h)
  | _ =>
    refine hs.step hgoto (fun c hc => hQ c hc ?_ ?_) h hw
    · rintro b e rfl; exact hc
    · rintro p rfl; exact hc

end Stable

section
variable {env : Env} {ok : World → Act → Prop} {w w' w₀ : World} {act : Act}

theorem Stable.of_reaches {P : World → Prop} (hs : Stable env (fun _ => True) P)
    (hgoto : ∀ {w} i h, P w → P (w.goto i h)) (h : P w) (hr : Reaches (Embassy.step env) ok w w') :
    P w' :=
  hr.invariant h fun _ _ _ h _ hw => hs.step hgoto (fun _ _ => trivial) h hw

theorem store_eq_call {c : Call} (h : w.store = storeAfter env.toTier3Config w.trace) :
    (w.call env c).store = storeAfter env.toTier3Config (w.call env c).trace := by
  show c.apply _ w.store = storeAfter _ (w.trace ++ [c])
  rw [storeAfter_concat, h]

theorem stable_store_eq :
    Stable env (fun _ => True) fun w => w.store = storeAfter env.toTier3Config w.trace where
  tick h := h
  call _ _ h := store_eq_call h
  read {w _} _ _ h := store_eq_call (w := w.tick) h

theorem stable_handlers (env : Env) (handlers : ℕ → Option Handler) :
    Stable env (fun _ => True) fun w => w.handlers = handlers where
  tick h := h
  call _ _ h := h
  read _ _ h := h

theorem stable_prefixOf (w₀ : World) : Stable env (fun _ => True) fun w => w₀.trace <+: w.trace where
  tick h := h
  call _ _ h := h.trans (List.prefix_append ..)
  read _ _ h := h.trans (List.prefix_append ..)

theorem trace_prefix_of_reaches (h : Reaches (step env) ok w w') : w.trace <+: w'.trace :=
  (stable_prefixOf w).of_reaches (fun _ _ h => h) (List.prefix_refl _) h

theorem trace_prefix_of_step (h : step env w act = some w') : w.trace <+: w'.trace :=
  (stable_prefixOf w).step (fun _ _ h => h) (fun _ _ => trivial) (List.prefix_refl _) h

/-- The time is not before any reading taken so far. -/
def Env.Past (env : Env) (w : World) (t : ℤ) : Prop := ∀ k < w.reads, env.clock k ≤ t

/-- The readings in the trace are in order, and were taken. -/
structure Timed (env : Env) (w : World) : Prop where
  sorted : (w.trace.filterMap Call.time?).Pairwise (· ≤ ·)
  taken : ∀ t ∈ w.trace.filterMap Call.time?, ∃ k < w.reads, t = env.clock k

theorem stable_timed : Stable env (fun _ => True) (Timed env) where
  tick h := ⟨h.sorted, fun t ht => by
    obtain ⟨k, hk, rfl⟩ := h.taken t ht; exact ⟨k, Nat.lt_succ_of_lt hk, rfl⟩⟩
  call {w c} _ hc h := by
    have htimes : (w.call env c).trace.filterMap Call.time? = w.trace.filterMap Call.time? := by
      simp [World.call, List.filterMap_append, hc]
    exact ⟨htimes ▸ h.sorted, htimes ▸ h.taken⟩
  read {w c} _ hc h := by
    have htimes : (w.tick.call env c).trace.filterMap Call.time? =
        w.trace.filterMap Call.time? ++ [w.now env] := by
      simp [World.call, World.tick, List.filterMap_append, hc.1]
    refine ⟨?_, fun t ht => ?_⟩
    · rw [htimes]
      refine List.pairwise_append.2 ⟨h.sorted, List.pairwise_singleton .., fun x hx y hy => ?_⟩
      obtain rfl := List.mem_singleton.1 hy
      obtain ⟨k, hk, rfl⟩ := h.taken x hx
      exact env.clock_mono hk.le
    · rw [htimes] at ht
      rcases List.mem_append.1 ht with ht | ht
      · obtain ⟨k, hk, rfl⟩ := h.taken t ht; exact ⟨k, Nat.lt_succ_of_lt hk, rfl⟩
      · obtain rfl := List.mem_singleton.1 ht; exact ⟨w.reads, Nat.lt_succ_self _, rfl⟩

theorem timed_of_reaches (h : Reaches (step env) ok .init w) : Timed env w :=
  stable_timed.of_reaches (fun _ _ h => ⟨h.sorted, h.taken⟩) ⟨List.Pairwise.nil, fun _ ht => by cases ht⟩ h

theorem Timed.chronological (h : Timed env w) : Chronological (auditCalls w.trace) :=
  h.sorted.sublist (auditTimes_sublist _)

theorem Timed.le_of_past (h : Timed env w) {t : ℤ} (ht : env.Past w t) :
    ∀ x ∈ w.trace.filterMap Call.time?, x ≤ t := by
  intro x hx
  obtain ⟨k, hk, rfl⟩ := h.taken x hx
  exact ht k hk

end

/-- The clock that ticks once for each reading. -/
def Env.ticking (cfg : Tier3Config) : Env :=
  { cfg with clock := fun k => k, clock_mono := fun _ _ h => Int.ofNat_le.2 h }

def chair (amountCents : ℕ) (h : 0 < amountCents ∧ amountCents ≤ 1000000) : Tier3OrderRequest :=
  ⟨"chair", 1, amountCents, by decide, by decide, h⟩

theorem chair_range : 0 < 300 ∧ 300 ≤ 1000000 := by decide

/-- Request `i` places an order for `client`, up to its unlocked read of the grant. -/
def arrive (i : ℕ) (client actionId : String) (body : Tier3OrderRequest) : List Act :=
  [.order i false ⟨some "SUCCESS", some "Bearer t"⟩ (fun _ => some ⟨some client, none⟩) body,
    .readLimit i actionId]

end Embassy
