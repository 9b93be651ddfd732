import Embassy.LawfulStore
import Embassy.Tier3Runs

/-!
# The invariant of the Tier 3 endpoints

Every request in flight works on at most one action (`Handler.drives`), no two on the same one, and
the calls about every action are a path of the automaton that ends in a phase between two locked
blocks (`Inv`). Only the request that drives an action, or a locked block that finds it in the queue,
moves it on (`Inv.extend`); so `Inv` holds in every run (`inv_of_reaches`).
-/

namespace Embassy
open Lib

/-- The order a request works on, and the phase its action is in meanwhile. -/
def Handler.drives : Handler → Option (Order × ActionPhase)
  | limitRead o _ => some (o, .minted)
  | turningAway clientId body (some actionId) _ _ _ => some (⟨actionId, clientId, body⟩, .minted)
  | reserved h => some (h.order, .reserved h.approvedByHuman)
  | executing h => some (h.order, .executing h.approvedByHuman)
  | settled h result => some (h.order, .settled h.approvedByHuman result)
  | authenticated .. | turningAway _ _ none _ _ _ | queued _ | polling .. | answered _ => none

namespace ActionPhase

/-- A request works on an action in this phase. -/
def Driven : ActionPhase → Prop
  | minted | reserved _ | executing _ | settled .. => True
  | _ => False

/-- No locked block is in the middle of it. -/
def AtRest : ActionPhase → Prop
  | entering _ | entered _ | leaving _ | closing _ => False
  | _ => True

end ActionPhase

theorem Handler.driven_of_drives {h : Handler} {o : Order} {ph : ActionPhase}
    (hd : h.drives = some (o, ph)) : ph.Driven := by
  unfold drives at hd
  split at hd <;> cases hd <;> trivial

/-- What holds between the steps of a run. -/
structure Inv (trace : List Call) (handlers : ℕ → Option Handler) : Prop where
  lawful : Lawful trace
  rest : ∀ a o ph, lifeOf a trace = some (some (o, ph)) → ph.AtRest
  driven : ∀ i h o ph, handlers i = some h → h.drives = some (o, ph) →
    lifeOf o.actionId trace = some (some (o, ph))
  alone : ∀ i j h h' o o' ph ph', handlers i = some h → handlers j = some h' →
    h.drives = some (o, ph) → h'.drives = some (o', ph') → o.actionId = o'.actionId → i = j

/-- No request works on the action. -/
def NobodyDrives (handlers : ℕ → Option Handler) (a : String) : Prop :=
  ∀ i h o ph, handlers i = some h → h.drives = some (o, ph) → o.actionId ≠ a

namespace Inv
variable {trace cs : List Call} {handlers : ℕ → Option Handler} {a : String} {i : ℕ} {h h' : Handler}
  {o : Order} {ph : ActionPhase} {s s' : Stage}

theorem init : Inv [] fun _ => none where
  lawful := lawful_nil
  rest _ _ _ h := by cases h
  driven _ _ _ _ h := by cases h
  alone _ _ _ _ _ _ _ _ h := by cases h

theorem nobodyDrives_of_unborn (hI : Inv trace handlers) (ha : lifeOf a trace = some none) :
    NobodyDrives handlers a := by
  rintro i h o ph hi hd rfl
  rw [hI.driven i h o ph hi hd] at ha
  cases ha

theorem nobodyDrives_of_not_driven (hI : Inv trace handlers)
    (ha : lifeOf a trace = some (some (o, ph))) (hph : ¬ ph.Driven) : NobodyDrives handlers a := by
  rintro i h o' ph' hi hd rfl
  obtain ⟨rfl, rfl⟩ : o' = o ∧ ph' = ph := by simpa [hI.driven i h o' ph' hi hd] using ha
  exact hph (Handler.driven_of_drives hd)

theorem nobodyDrives_release (hI : Inv trace handlers) (hi : handlers i = some h)
    (hd : h.drives = some (o, ph)) : NobodyDrives (Function.update handlers i none) o.actionId := by
  intro j h' o' ph' hj hd' heq
  rw [Function.update_apply] at hj
  split at hj
  · cases hj
  · exact ‹¬ j = i› (hI.alone j i h' h o' o ph' ph hj hi hd' hd heq)

theorem release (hI : Inv trace handlers) (i : ℕ) {x : Option Handler}
    (hx : ∀ h, x = some h → h.drives = none) : Inv trace (Function.update handlers i x) := by
  have hold : ∀ j h o ph, Function.update handlers i x j = some h → h.drives = some (o, ph) →
      handlers j = some h := by
    intro j h o ph hj hd
    rw [Function.update_apply] at hj
    split at hj
    · rw [hx h hj] at hd; cases hd
    · exact hj
  exact ⟨hI.lawful, hI.rest, fun j h o ph hj hd => hI.driven j h o ph (hold j h o ph hj hd) hd,
    fun j k h h' o o' ph ph' hj hk hd hd' => hI.alone j k h h' o o' ph ph' (hold j h o ph hj hd)
      (hold k h' o' ph' hk hd') hd hd'⟩

theorem drive (hI : Inv trace handlers) (hfree : NobodyDrives handlers o.actionId)
    (hlife : lifeOf o.actionId trace = some (some (o, ph))) (hd : h.drives = some (o, ph)) :
    Inv trace (Function.update handlers i (some h)) := by
  refine ⟨hI.lawful, hI.rest, fun j h₁ o₁ ph₁ hj hd₁ => ?_,
    fun j k h₁ h₂ o₁ o₂ ph₁ ph₂ hj hk hd₁ hd₂ heq => ?_⟩
  · rw [Function.update_apply] at hj
    split at hj
    · obtain rfl := Option.some.inj hj
      obtain ⟨rfl, rfl⟩ : o = o₁ ∧ ph = ph₁ := by simpa using hd.symm.trans hd₁
      exact hlife
    · exact hI.driven j h₁ o₁ ph₁ hj hd₁
  · rw [Function.update_apply] at hj hk
    split at hj <;> rename_i hji <;> split at hk <;> rename_i hki
    · exact hji.trans hki.symm
    · obtain rfl := Option.some.inj hj
      obtain ⟨rfl, rfl⟩ : o = o₁ ∧ ph = ph₁ := by simpa using hd.symm.trans hd₁
      exact absurd heq.symm (hfree k h₂ o₂ ph₂ hk hd₂)
    · obtain rfl := Option.some.inj hk
      obtain ⟨rfl, rfl⟩ : o = o₂ ∧ ph = ph₂ := by simpa using hd.symm.trans hd₂
      exact absurd heq (hfree j h₁ o₁ ph₁ hj hd₁)
    · exact hI.alone j k h₁ h₂ o₁ o₂ ph₁ ph₂ hj hk hd₁ hd₂ heq

/-- Calls about an action nobody works on, along the automaton, to a phase at rest. -/
theorem extend (hI : Inv trace handlers) (cs : List Call) (s' : Stage) (habout : ∀ c ∈ cs, c.about = some a)
    (hlife : lifeOf a trace = some s) (hrun : run Stage.next s cs = some s')
    (hrest : ∀ o ph, s' = some (o, ph) → ph.AtRest) (hfree : NobodyDrives handlers a) :
    Inv (trace ++ cs) handlers ∧ lifeOf a (trace ++ cs) = some s' := by
  have hself : lifeOf a (trace ++ cs) = some s' := by
    rw [lifeOf_append_of_about habout, hlife]; exact hrun
  have hother : ∀ b, b ≠ a → lifeOf b (trace ++ cs) = lifeOf b trace := fun b hb =>
    lifeOf_append_of_ne fun c hc => by rw [habout c hc]; exact fun h => hb (Option.some.inj h).symm
  refine ⟨⟨⟨fun b => ?_, fun c hc hnone => ?_⟩, fun b o ph hb => ?_, fun i h o ph hi hd => ?_, hI.alone⟩,
    hself⟩
  · by_cases hb : b = a
    · subst hb; exact ⟨s', hself⟩
    · rw [hother b hb]; exact hI.lawful.life b
  · rcases List.mem_append.1 hc with hc | hc
    · exact hI.lawful.idle c hc hnone
    · rw [habout c hc] at hnone; cases hnone
  · by_cases hba : b = a
    · subst hba; exact hrest o ph (Option.some.inj (hself.symm.trans hb))
    · rw [hother b hba] at hb; exact hI.rest b o ph hb
  · rw [hother _ (hfree i h o ph hi hd)]; exact hI.driven i h o ph hi hd

theorem extend_none (hI : Inv trace handlers) (habout : ∀ c ∈ cs, c.about = none ∧ c.Idle) :
    Inv (trace ++ cs) handlers := by
  have hother : ∀ b, lifeOf b (trace ++ cs) = lifeOf b trace := fun b =>
    lifeOf_append_of_ne fun c hc => by rw [(habout c hc).1]; exact Option.some_ne_none b |>.symm
  exact ⟨⟨fun b => hother b ▸ hI.lawful.life b, fun c hc hnone => (List.mem_append.1 hc).elim
      (fun hc => hI.lawful.idle c hc hnone) fun hc => (habout c hc).2⟩,
    fun b o ph hb => hI.rest b o ph (hother b ▸ hb),
    fun i h o ph hi hd => hother _ ▸ hI.driven i h o ph hi hd, hI.alone⟩

theorem move (hI : Inv trace handlers) (hi : handlers i = some h) (hd : h.drives = some (o, ph))
    (habout : ∀ c ∈ cs, c.about = some o.actionId) {ph' : ActionPhase}
    (hrun : run Stage.next (some (o, ph)) cs = some (some (o, ph'))) (hrest : ph'.AtRest)
    (hd' : h'.drives = none ∨ h'.drives = some (o, ph')) :
    Inv (trace ++ cs) (Function.update handlers i (some h')) := by
  have hfree := hI.nobodyDrives_release hi hd
  have hI' := (hI.release i (x := none) fun _ h => by cases h).extend cs _ habout
    (hI.driven i h o ph hi hd) hrun (fun o' ph'' heq => by cases heq; exact hrest) hfree
  rcases hd' with hd' | hd'
  · have := hI'.1.release i (x := some h') (fun h hh => by cases hh; exact hd')
    rwa [Function.update_idem] at this
  · have := hI'.1.drive (i := i) hfree hI'.2 hd'
    rwa [Function.update_idem] at this

end Inv

/-! ### The locked blocks -/

namespace World
variable {env : Env} {w : World} {exit : Exit} {now : ℤ} {outcome : Outcome} {reason : String}
  {status : ResolutionStatus} {detail : String} {a : String}

variable (env w exit now outcome reason status detail) in
theorem trace_close (p : Tier3PendingAction) : ∃ e r created,
    e.IsOf p.order outcome ∧ r.IsOf p.order status ∧
      (w.close env exit now outcome reason status detail p).trace =
        w.trace ++ [.popped exit now p, .recorded e, .resolved created r] := by
  refine ⟨p.order.event (w.now env) outcome reason, newResolution (w.tick.now env) p.actionId p.clientId
    status detail none none, (w.store.tier3Resolutions.get? p.actionId).isNone, rfl, ⟨rfl, rfl, rfl⟩, ?_⟩
  change ((w.trace ++ [_]) ++ [_]) ++ [_] = _
  simp only [List.append_assoc, List.cons_append, List.nil_append]
  rfl

@[simp] theorem pending_close (p : Tier3PendingAction) :
    (w.close env exit now outcome reason status detail p).store.tier3Pending =
      w.store.tier3Pending.erase p.actionId := rfl

@[simp] theorem grants_close (p : Tier3PendingAction) :
    (w.close env exit now outcome reason status detail p).store.tier3Grants = w.store.tier3Grants := rfl

theorem get?_pending_foldl_close (ps : List Tier3PendingAction) :
    (ps.foldl (close env exit now outcome reason status detail) w).store.tier3Pending.get? a =
      if a ∈ ps.map Tier3PendingAction.actionId then none else w.store.tier3Pending.get? a := by
  induction ps generalizing w with
  | nil => simp
  | cons p ps ih =>
    rw [List.foldl_cons, ih, pending_close, Dict.get?_erase]
    by_cases hp : a = p.actionId <;> simp [hp]

theorem grants_foldl_close (ps : List Tier3PendingAction) :
    (ps.foldl (close env exit now outcome reason status detail) w).store.tier3Grants =
      w.store.tier3Grants := by
  induction ps generalizing w with
  | nil => rfl
  | cons p ps ih => rw [List.foldl_cons, ih, grants_close]

@[simp] theorem grants_prune : (w.pruneTier3Pending env).store.tier3Grants = w.store.tier3Grants :=
  grants_foldl_close _

/-- The keys of the queue are the action ids of its entries. -/
def Keyed (w : World) : Prop :=
  ∀ a p, w.store.tier3Pending.get? a = some p → p.actionId = a

theorem Keyed.map_values (h : w.Keyed) :
    w.store.tier3Pending.values.map Tier3PendingAction.actionId = w.store.tier3Pending.keys := by
  rw [Dict.values, List.map_map, Dict.keys]
  exact List.map_congr_left fun e he => h e.1 e.2 (Dict.mem_entries_iff.1 he)

theorem Keyed.nodup_map (h : w.Keyed) {ps : List Tier3PendingAction}
    (hps : ps.Sublist w.store.tier3Pending.values) : (ps.map Tier3PendingAction.actionId).Nodup :=
  ((h.map_values ▸ w.store.tier3Pending.nodup : (w.store.tier3Pending.values.map _).Nodup)).sublist
    (hps.map _)

theorem Keyed.get? (h : w.Keyed) {p : Tier3PendingAction} (hp : p ∈ w.store.tier3Pending.values) :
    w.store.tier3Pending.get? p.actionId = some p := by
  obtain ⟨k, hk⟩ := Dict.mem_values_iff.1 hp
  rwa [h k p hk]

theorem get?_pending_prune (h : w.Keyed) :
    (w.pruneTier3Pending env).store.tier3Pending.get? a =
      (w.store.tier3Pending.get? a).filter fun p => w.now env ≤ p.expiresAt := by
  rw [pruneTier3Pending, expire, get?_pending_foldl_close]
  change (if _ then none else w.store.tier3Pending.get? a) = _
  cases hp : w.store.tier3Pending.get? a with
  | none => simp
  | some p =>
    have hmem : a ∈ (w.overdue (w.now env)).map Tier3PendingAction.actionId ↔ w.now env > p.expiresAt := by
      simp only [List.mem_map, overdue, List.mem_filter, decide_eq_true_eq]
      constructor
      · rintro ⟨q, ⟨hq, hlt⟩, rfl⟩
        have hq := h.get? hq
        rw [hp] at hq; obtain rfl := Option.some.inj hq
        exact hlt
      · exact fun hlt => ⟨p, ⟨Dict.mem_values_iff.2 ⟨a, hp⟩, hlt⟩, h a p hp⟩
    by_cases hlt : w.now env > p.expiresAt
    · rw [if_pos (hmem.2 hlt)]; simp [Option.filter, not_le.2 hlt]
    · rw [if_neg (hmem.not.2 hlt)]; simp [Option.filter, not_lt.1 hlt]

end World

/-- The store is what the trace says, and `Inv` holds for the trace and these requests. -/
structure Good (env : Env) (w : World) (handlers : ℕ → Option Handler) : Prop where
  store_eq : w.store = storeAfter env.toTier3Config w.trace
  inv : Inv w.trace handlers

namespace Good
variable {env : Env} {w : World} {handlers : ℕ → Option Handler} {a : String}
  {p : Tier3PendingAction} {o : Order} {ph : ActionPhase}

theorem pending_iff (h : Good env w handlers) :
    w.store.tier3Pending.get? a = some p ↔ lifeOf a w.trace = some (some (p.order, .pending p)) := by
  rw [h.store_eq, pending_storeAfter h.inv.lawful]
  constructor
  · rintro ⟨ph, hlife, hp⟩
    have hrest := h.inv.rest a _ ph hlife
    cases ph with
    | pending q => obtain rfl := Option.some.inj hp; exact hlife
    | entering | entered => exact hrest.elim
    | _ => cases hp
  · exact fun hlife => ⟨_, hlife, rfl⟩

theorem keyed (h : Good env w handlers) : w.Keyed := fun _ _ hp =>
  actionId_of_pending env.toTier3Config h.inv.lawful (h.store_eq ▸ hp)

theorem life_of_mem (h : Good env w handlers) (hp : p ∈ w.store.tier3Pending.values) :
    lifeOf p.actionId w.trace = some (some (p.order, .pending p)) :=
  h.pending_iff.1 (h.keyed.get? hp)

theorem tick (h : Good env w handlers) : Good env w.tick handlers := ⟨h.store_eq, h.inv⟩

section Close
variable (exit : Exit) (now : ℤ) (reason detail : String)

theorem close (h : Good env w handlers) (hp : lifeOf p.actionId w.trace = some (some (p.order, .pending p)))
    (hexit : p.expiresAt < now ↔ exit = .expire) :
    Good env (w.close env exit now exit.outcome reason exit.status detail p) handlers ∧
      ∀ b, b ≠ p.actionId →
        lifeOf b (w.close env exit now exit.outcome reason exit.status detail p).trace =
          lifeOf b w.trace := by
  have hstore := stable_store_eq.close (fun _ _ => trivial) exit now exit.outcome reason exit.status
    detail p h.store_eq
  obtain ⟨e, r, created, he, hr, htrace⟩ := World.trace_close env w exit now exit.outcome reason
    exit.status detail p
  have habout : ∀ c ∈ [.popped exit now p, .recorded e, .resolved created r],
      Call.about c = some p.actionId := by
    have he' : e.actionId = some p.actionId := congrArg Tier3Event.actionId he
    simp [Call.about, he', hr.1, Tier3PendingAction.order]
  refine ⟨⟨hstore, htrace ▸ (h.inv.extend _ (some (p.order, .left exit)) habout hp ?_ ?_ ?_).1⟩,
    fun b hb => ?_⟩
  · simp [Stage.next, ActionPhase.next, he, hr, hexit]
  · rintro _ _ ⟨⟩; trivial
  · exact h.inv.nobodyDrives_of_not_driven hp id
  · rw [htrace]
    exact lifeOf_append_of_ne fun c hc => by
      rw [habout c hc]; exact fun heq => hb (Option.some.inj heq).symm

theorem foldl_close {ps : List Tier3PendingAction} (h : Good env w handlers)
    (hps : ∀ p ∈ ps, lifeOf p.actionId w.trace = some (some (p.order, .pending p)))
    (hnd : (ps.map Tier3PendingAction.actionId).Nodup)
    (hexit : ∀ p ∈ ps, p.expiresAt < now ↔ exit = .expire) :
    Good env (ps.foldl (World.close env exit now exit.outcome reason exit.status detail) w) handlers ∧
      ∀ b, b ∉ ps.map Tier3PendingAction.actionId →
        lifeOf b (ps.foldl (World.close env exit now exit.outcome reason exit.status detail) w).trace =
          lifeOf b w.trace := by
  induction ps generalizing w with
  | nil => exact ⟨h, fun _ _ => rfl⟩
  | cons p ps ih =>
    obtain ⟨hp, hps⟩ := List.forall_mem_cons.1 hps
    obtain ⟨hep, heps⟩ := List.forall_mem_cons.1 hexit
    obtain ⟨hpn, hnd⟩ := List.nodup_cons.1 hnd
    obtain ⟨hgood, hlife⟩ := h.close exit now reason detail hp hep
    obtain ⟨hgood', hlife'⟩ := ih hgood (fun q hq => (hlife q.actionId fun heq =>
      hpn (heq ▸ List.mem_map_of_mem hq)).trans (hps q hq)) hnd heps
    refine ⟨hgood', fun b hb => ?_⟩
    rw [List.map_cons, List.mem_cons, not_or] at hb
    exact (hlife' b hb.2).trans (hlife b hb.1)

end Close

theorem prune (h : Good env w handlers) : Good env (w.pruneTier3Pending env) handlers ∧
    ∀ b, (∀ p, w.store.tier3Pending.get? b ≠ some p) →
      lifeOf b (w.pruneTier3Pending env).trace = lifeOf b w.trace := by
  have hmem : ∀ p ∈ w.overdue (w.now env), p ∈ w.store.tier3Pending.values ∧ p.expiresAt < w.now env := by
    intro p hp; simpa [World.overdue] using hp
  obtain ⟨hgood, hlife⟩ := h.tick.foldl_close .expire (w.now env)
    "pending approval expired before a human decided" "pending approval expired before a human decided"
    (fun p hp => h.life_of_mem (hmem p hp).1) (h.keyed.nodup_map List.filter_sublist)
    fun p hp => ⟨fun _ => rfl, fun _ => (hmem p hp).2⟩
  refine ⟨hgood, fun b hb => hlife b fun hmap => ?_⟩
  obtain ⟨p, hp, rfl⟩ := List.mem_map.1 hmap
  exact hb p (h.keyed.get? (hmem p hp).1)

/-- Nothing that is still queued after a prune is overdue. -/
theorem not_overdue (h : Good env w handlers)
    (hp : (w.pruneTier3Pending env).store.tier3Pending.get? a = some p) :
    ¬ p.expiresAt < w.now env := by
  rw [World.get?_pending_prune h.keyed, Option.filter_eq_some_iff] at hp
  exact not_lt.2 (of_decide_eq_true hp.2)

/-- Where a locked block leaves its request: working on nothing, or on an action that is now its own. -/
def Hands (w : World) (handlers : ℕ → Option Handler) (h : Handler) : Prop :=
  h.drives = none ∨ ∃ o ph, h.drives = some (o, ph) ∧
    lifeOf o.actionId w.trace = some (some (o, ph)) ∧ NobodyDrives handlers o.actionId

theorem reserveOrQueue (h : Good env w handlers) (ho : lifeOf o.actionId w.trace = some (some (o, .minted)))
    (hfree : NobodyDrives handlers o.actionId) (limit : ℕ) :
    Good env (w.reserveOrQueue env o limit).1 handlers ∧
      Hands (w.reserveOrQueue env o limit).1 handlers (w.reserveOrQueue env o limit).2 := by
  have hstore := stable_store_eq.reserveOrQueue 0 (fun _ _ => trivial) o limit h.store_eq
  obtain ⟨hprune, hlife⟩ := h.tick.prune
  have ho' : lifeOf o.actionId (w.tick.pruneTier3Pending env).trace = some (some (o, .minted)) := by
    rw [hlife o.actionId fun p hp => ?_]
    · exact ho
    · rw [h.tick.pending_iff] at hp
      cases ho.symm.trans hp
  unfold World.reserveOrQueue at hstore ⊢
  simp only at hstore ⊢
  split at hstore <;> rename_i hlim <;> simp only [hlim, ↓reduceIte] at hstore ⊢
  · -- within the mandate
    obtain ⟨hI, hl⟩ := h.inv.extend
      [.reserved false (o.event (w.tick.now env) .accepted "within mandate -- handoff in progress")]
      (some (o, .reserved false)) (by simp [Call.about, Order.event]) ho
      (by simp [Stage.next, ActionPhase.next, Tier3Event.IsOf, Order.event])
      (by rintro _ _ ⟨⟩; trivial) hfree
    exact ⟨⟨hstore, hI⟩, .inr ⟨o, _, rfl, hl, hfree⟩⟩
  · split at hstore <;> rename_i hfull <;> simp only [hfull, ↓reduceIte] at hstore ⊢
    · exact ⟨hprune, .inr ⟨o, _, rfl, ho', hfree⟩⟩
    · -- queued, audited and resolved in one block
      generalize w.tick.pruneTier3Pending env = v at *
      let p := queuedAction env.toTier3Config (v.now env) o.actionId o.clientId o.body
      obtain ⟨hI, -⟩ := hprune.inv.extend
        [.queued p, .recorded (o.event (v.tick.now env) .queued _), .resolved _
          (newResolution (v.tick.tick.now env) o.actionId o.clientId .queued "awaiting human approval"
            none none)]
        (some (o, .pending p)) (by simp [Call.about, Order.event, newResolution, p, queuedAction]) ho'
        (by simp [Stage.next, ActionPhase.next, Tier3Event.IsOf, Tier3Resolution.IsOf, Order.event,
          newResolution, p, queuedAction, Tier3PendingAction.order])
        (by rintro _ _ ⟨⟩; trivial) hfree
      refine ⟨⟨hstore, ?_⟩, .inl rfl⟩
      change Inv (((v.trace ++ [_]) ++ [_]) ++ [_]) handlers
      simp only [List.append_assoc, List.cons_append, List.nil_append]
      exact hI

theorem nobodyDrives_of_pending (h : Good env w handlers) (hp : w.store.tier3Pending.get? a = some p) :
    NobodyDrives handlers a :=
  h.inv.nobodyDrives_of_not_driven (h.pending_iff.1 hp) id

theorem approveTier3Action (h : Good env w handlers) (a : String) :
    Good env (w.approveTier3Action env a).1 handlers ∧
      Hands (w.approveTier3Action env a).1 handlers (w.approveTier3Action env a).2 := by
  have hstore := stable_store_eq.approveTier3Action 0 a (fun _ _ => trivial) h.store_eq
  obtain ⟨hprune, -⟩ := h.prune
  unfold World.approveTier3Action at hstore ⊢
  simp only at hstore ⊢
  cases hp : (w.pruneTier3Pending env).store.tier3Pending.get? a with
  | none => exact ⟨hprune, .inl rfl⟩
  | some p =>
    simp only [hp] at hstore ⊢
    have hlife := hprune.pending_iff.1 hp
    obtain rfl := hprune.keyed a p hp
    have hnow := h.not_overdue hp
    cases hlim : (w.pruneTier3Pending env).store.tier3Grants.get? p.clientId with
    | none =>
      simp only
      exact ⟨(hprune.close .approve _ _ _ hlife (by simp [hnow])).1, .inl rfl⟩
    | some limit =>
      simp only [hlim] at hstore ⊢
      have hfree := hprune.nobodyDrives_of_pending hp
      generalize w.pruneTier3Pending env = v at *
      obtain ⟨hI, hl⟩ := hprune.inv.extend
        [.popped .approve (w.now env) p,
          .reserved true (p.order.event (v.tick.now env) .accepted "approved by human -- handoff in progress")]
        (some (p.order, .reserved true)) (by simp [Call.about, Order.event, Tier3PendingAction.order]) hlife
        (by simp [Stage.next, ActionPhase.next, Tier3Event.IsOf, Order.event, hnow])
        (by rintro _ _ ⟨⟩; trivial) hfree
      rw [List.append_cons] at hI hl
      exact ⟨⟨hstore, hI⟩, .inr ⟨p.order, _, rfl, hl, hfree⟩⟩

theorem rejectTier3Action (h : Good env w handlers) (a : String) :
    Good env (w.rejectTier3Action env a).1 handlers ∧ (w.rejectTier3Action env a).2.drives = none := by
  obtain ⟨hprune, -⟩ := h.prune
  unfold World.rejectTier3Action
  simp only
  cases hp : (w.pruneTier3Pending env).store.tier3Pending.get? a with
  | none => exact ⟨hprune, rfl⟩
  | some p =>
    have hlife := hprune.pending_iff.1 hp
    obtain rfl := hprune.keyed a p hp
    exact ⟨(hprune.close .reject _ _ _ hlife (by simp [h.not_overdue hp])).1, rfl⟩

theorem call (h : Good env w handlers) {c : Call} (hc : c.about = none) (hidle : c.Idle) :
    Good env (w.call env c) handlers :=
  ⟨store_eq_call h.store_eq, h.inv.extend_none (by simpa using ⟨hc, hidle⟩)⟩

theorem deleteTier3Grant (h : Good env w handlers) (c : String) :
    Good env (w.deleteTier3Grant env c) handlers := by
  obtain ⟨hprune, -⟩ := (h.call (c := .ungranted c) rfl trivial).prune
  have hmem : ∀ p ∈ ((w.call env (.ungranted c)).pruneTier3Pending env).pendingOf c,
      p ∈ ((w.call env (.ungranted c)).pruneTier3Pending env).store.tier3Pending.values :=
    fun p hp => List.mem_of_mem_filter hp
  exact (hprune.foldl_close .revoke ((w.call env (.ungranted c)).now env)
    "mandate revoked -- pending approval cancelled" "mandate revoked -- pending approval cancelled"
    (fun p hp => hprune.life_of_mem (hmem p hp)) (hprune.keyed.nodup_map List.filter_sublist)
    fun p hp => by
      simp [(h.call (c := .ungranted c) rfl trivial).not_overdue (hprune.keyed.get? (hmem p hp))]).1

/-! ### Steps and runs -/

/-- A request that worked on nothing is handed what a locked block left for it. -/
theorem goto_of_hands {i : ℕ} {h : Handler} (hg : Good env w handlers) (hh : Hands w handlers h) :
    Good env (w.goto i h) (Function.update handlers i (some h)) := by
  refine ⟨hg.store_eq, ?_⟩
  rcases hh with hd | ⟨o, ph, hd, hlife, hfree⟩
  · exact hg.inv.release i fun h' hh' => by cases hh'; exact hd
  · exact hg.inv.drive hfree hlife hd

theorem move (ph' : ActionPhase) {i : ℕ} {h h' : Handler} {c : Call} (hg : Good env w handlers)
    (hi : handlers i = some h) (hd : h.drives = some (o, ph)) (hc : c.about = some o.actionId)
    (hnext : ph.next o c = some ph') (hrest : ph'.AtRest)
    (hd' : h'.drives = none ∨ h'.drives = some (o, ph')) :
    Good env ((w.call env c).goto i h') (Function.update handlers i (some h')) :=
  ⟨store_eq_call hg.store_eq,
    hg.inv.move hi hd (by simpa using hc) (by simp [Stage.next, hnext]) hrest hd'⟩

theorem init : Good env .init fun _ => none := ⟨rfl, Inv.init⟩

theorem goto_idle {i : ℕ} {h : Handler} (hg : Good env w handlers) (hd : h.drives = none) :
    Good env (w.goto i h) (Function.update handlers i (some h)) :=
  hg.goto_of_hands (.inl hd)

theorem drop (hg : Good env w handlers) (i : ℕ) :
    Good env w (Function.update handlers i none) :=
  ⟨hg.store_eq, hg.inv.release i fun _ h => by cases h⟩

theorem step {act : Act} {w' : World} (hg : Good env w w.handlers) (hw : step env w act = some w') :
    Good env w' w'.handlers := by
  cases act with
  | order i limited headers introspect body =>
    simp only [Embassy.step] at hw
    split at hw <;> [cases hw; skip]
    split at hw
    · obtain rfl := Option.some.inj hw; exact hg.goto_idle rfl
    · split at hw <;> obtain rfl := Option.some.inj hw
      · refine (hg.tick.call ?_ ?_).goto_idle rfl <;> rfl
      · exact hg.goto_idle rfl
  | readLimit i actionId =>
    simp only [Embassy.step] at hw
    split at hw <;> [rename_i c body hi; cases hw]
    split at hw
    · obtain rfl := Option.some.inj hw; exact hg.goto_idle rfl
    · split at hw <;> [rename_i hfresh; cases hw]
      obtain rfl := Option.some.inj hw
      have hlife := lifeOf_of_fresh hfresh
      have hfree := hg.inv.nobodyDrives_of_unborn hlife
      obtain ⟨hI, hl⟩ := hg.inv.extend [.minted ⟨actionId, c, body⟩]
        (some (⟨actionId, c, body⟩, .minted)) (by simp [Call.about]) hlife rfl
        (by rintro _ _ ⟨⟩; trivial) hfree
      exact goto_of_hands ⟨store_eq_call hg.store_eq, hI⟩ (.inr ⟨_, _, rfl, hl, hfree⟩)
  | reserve i =>
    simp only [Embassy.step] at hw
    split at hw <;> [rename_i o limit hi; cases hw]
    obtain rfl := Option.some.inj hw
    have hkeep := (stable_handlers env w.handlers).reserveOrQueue i (fun _ _ => trivial) o limit rfl
    obtain ⟨hg', hh⟩ := (hg.drop i).reserveOrQueue (hg.inv.driven i _ o _ hi rfl)
      (hg.inv.nobodyDrives_release hi rfl) limit
    have := hg'.goto_of_hands (i := i) hh
    rw [Function.update_idem, ← hkeep] at this
    exact this
  | turnAway i =>
    simp only [Embassy.step] at hw
    split at hw <;> [rename_i c body a reason status detail hi; cases hw]
    obtain rfl := Option.some.inj hw
    cases a with
    | none => refine (hg.tick.call ?_ ?_).goto_idle rfl <;> rfl
    | some a =>
      exact hg.tick.move .turnedAway hi (o := ⟨a, c, body⟩) rfl rfl
        (by simp [ActionPhase.next, Tier3Event.IsOf, Order.event]) trivial (.inl rfl)
  | answerQueued i =>
    simp only [Embassy.step] at hw
    split at hw <;> [skip; cases hw]
    split at hw <;> obtain rfl := Option.some.inj hw <;> exact hg.goto_idle rfl
  | handOff i =>
    simp only [Embassy.step] at hw
    split at hw <;> [rename_i h hi; cases hw]
    obtain rfl := Option.some.inj hw
    exact hg.move (.executing h.approvedByHuman) hi rfl rfl rfl trivial (.inr rfl)
  | settle i result =>
    simp only [Embassy.step] at hw
    split at hw <;> [rename_i h result hi; skip; cases hw] <;> obtain rfl := Option.some.inj hw
    · exact hg.move (.settled h.approvedByHuman result) hi rfl rfl (by simp [ActionPhase.next])
        trivial (.inr rfl)
    · exact hg.goto_idle rfl
  | resolve i =>
    simp only [Embassy.step] at hw
    split at hw <;> [rename_i h result hi; cases hw]
    obtain rfl := Option.some.inj hw
    exact hg.tick.move (.resolved h.approvedByHuman result) hi rfl rfl
      (by simp [ActionPhase.next, Tier3Resolution.IsOf, newResolution]) trivial (.inl rfl)
  | approve i actionId =>
    simp only [Embassy.step] at hw
    split at hw <;> [skip; cases hw]
    obtain rfl := Option.some.inj hw
    have hkeep := (stable_handlers env w.handlers).approveTier3Action i actionId
      (fun _ _ => trivial) rfl
    obtain ⟨hg', hh⟩ := hg.approveTier3Action actionId
    have := hg'.goto_of_hands (i := i) hh
    rw [← hkeep] at this
    exact this
  | reject i actionId =>
    simp only [Embassy.step] at hw
    split at hw <;> [skip; cases hw]
    obtain rfl := Option.some.inj hw
    have hkeep := (stable_handlers env w.handlers).rejectTier3Action (fun _ _ => trivial) actionId rfl
    obtain ⟨hg', hh⟩ := hg.rejectTier3Action actionId
    have := hg'.goto_idle (i := i) hh
    rw [← hkeep] at this
    exact this
  | putGrant c limit =>
    obtain rfl := Option.some.inj hw
    exact hg.call rfl trivial
  | deleteGrant c =>
    obtain rfl := Option.some.inj hw
    have hkeep := (stable_handlers env w.handlers).deleteTier3Grant (c := c) (fun _ _ => trivial) rfl
    rw [hkeep]
    exact hg.deleteTier3Grant c
  | listApprovals =>
    obtain rfl := Option.some.inj hw
    have hkeep := (stable_handlers env w.handlers).pruneTier3Pending (fun _ _ => trivial) rfl
    rw [hkeep]
    exact hg.prune.1
  | poll i limited headers introspect actionId =>
    simp only [Embassy.step] at hw
    split at hw <;> [cases hw; skip]
    split at hw
    · obtain rfl := Option.some.inj hw; exact hg.goto_idle rfl
    · split at hw <;> obtain rfl := Option.some.inj hw
      · exact hg.goto_idle rfl
      · have hkeep := (stable_handlers env w.handlers).pruneTier3Pending (fun _ _ => trivial) rfl
        rename_i c _
        have := hg.prune.1.goto_idle (i := i) (h := .polling c actionId) rfl
        rw [← hkeep] at this
        exact this
  | pollRead i =>
    simp only [Embassy.step] at hw
    split at hw <;> [rename_i c a hi; cases hw]
    have hlooked := hg.tick.call (c := .looked (w.now env) a) rfl trivial
    split at hw
    · split at hw <;> obtain rfl := Option.some.inj hw <;> exact hlooked.goto_idle rfl
    · obtain rfl := Option.some.inj hw; exact hlooked.goto_idle rfl

end Good

theorem good_of_reaches {env : Env} {ok : World → Act → Prop} {w : World}
    (h : Reaches (step env) ok .init w) : Good env w w.handlers :=
  h.invariant (I := fun w => Good env w w.handlers) Good.init fun _ _ _ hg _ hw => Good.step hg hw

end Embassy
