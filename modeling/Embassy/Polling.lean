import Embassy.Tier3Invariant

/-!
# Polling a queued action

The approval queue and the resolution map forget independently: the map drops a resolution once it is
older than its own TTL, and the oldest ones of a client past its own cap, whether or not the action
is still queued. So the poll of a queued action finds it exactly while its resolution is young and
has few newer ones of its client behind it (`pollable_iff_fits`).
-/

namespace Embassy
open Lib

/-- Every cap and every TTL is at least 1. -/
structure Tier3Config.Positive (cfg : Tier3Config) : Prop where
  windowSeconds : 1 ≤ cfg.windowSeconds
  auditMax : 1 ≤ cfg.auditMax
  pendingTtlSeconds : 1 ≤ cfg.pendingTtlSeconds
  pendingMaxPerClient : 1 ≤ cfg.pendingMaxPerClient
  resolutionTtlSeconds : 1 ≤ cfg.resolutionTtlSeconds
  resolutionMaxPerClient : 1 ≤ cfg.resolutionMaxPerClient

/-- A first resolution of one of the client's actions. -/
def Call.creates (c : String) : Call → Bool
  | .resolved created r => created && r.clientId = c
  | _ => false

/-- The owner's poll at `t` finds the action queued. -/
def Pollable (env : Env) (w : World) (t : ℤ) (p : Tier3PendingAction) : Prop :=
  ∃ r, (getTier3Resolution env.toTier3Config t w.store.tier3Resolutions p.actionId).1 = some r ∧
    r.clientId = p.clientId ∧ r.status = .queued

/-- Since the action was queued, at most the resolution TTL before `t`, fewer other actions of its
client than the resolution cap got a resolution. -/
def Fits (env : Env) (w : World) (t : ℤ) (p : Tier3PendingAction) : Prop :=
  ∃ before r after, w.trace = before ++ .resolved true r :: after ∧ r.IsOf p.order .queued ∧
    (∀ call ∈ after, call.about ≠ some p.actionId) ∧ t - r.updatedAt ≤ env.resolutionTtlSeconds ∧
    after.countP (Call.creates p.clientId) < env.resolutionMaxPerClient

/-- The client's resolutions, oldest first. -/
def resolutionsOf (c : String) (d : Dict String Tier3Resolution) : List (String × Tier3Resolution) :=
  d.entries.filter fun e => e.2.clientId = c

section
variable {cfg : Tier3Config} {d : Dict String Tier3Resolution} {a b c client detail : String}
  {now t : ℤ} {status : ResolutionStatus} {channel orderNumber : Option String}
  {r existing : Tier3Resolution} {n : ℕ}

theorem mem_resolutionsOf : (a, r) ∈ resolutionsOf c d ↔ d.get? a = some r ∧ r.clientId = c := by
  simp [resolutionsOf, Dict.mem_entries_iff]

theorem resolutionsOf_update (hb : d.get? b = some existing) :
    resolutionsOf c (setTier3Resolution cfg now d b client status detail channel orderNumber) =
      (resolutionsOf c d).map fun e =>
        if e.1 = b then (b, existing.update now status detail channel orderNumber) else e := by
  rw [setTier3Resolution, hb]
  simp only [resolutionsOf, Dict.entries_set_of_mem _ _ (Dict.mem_keys_iff.2 ⟨_, hb⟩), List.filter_map]
  congr 1
  refine List.filter_congr fun e he => ?_
  by_cases heb : e.1 = b
  · have hold : e.2 = existing := by
      rw [← Prod.mk.eta (p := e), heb, Dict.mem_entries_iff, hb] at he
      exact (Option.some.inj he).symm
    simp [heb, hold, Tier3Resolution.update]
  · simp [heb]

theorem resolutionsOf_create (hb : d.get? b = none) :
    resolutionsOf c (setTier3Resolution cfg now d b client status detail channel orderNumber) =
      ((resolutionsOf c d ++
        if client = c then [(b, newResolution now b client status detail channel orderNumber)] else []).filter
          fun e => now - cfg.resolutionTtlSeconds ≤ e.2.updatedAt).rtake cfg.resolutionMaxPerClient := by
  rw [setTier3Resolution, hb]
  simp only [resolutionsOf, Dict.capPerKey, filter_capPerKey, Dict.filter,
    Dict.entries_set_of_not_mem _ _ (Dict.get?_eq_none_iff.1 hb)]
  rw [List.filter_filter, List.filter_append, List.filter_append, List.filter_filter]
  congr 2
  · exact List.filter_congr fun e _ => Bool.and_comm ..
  · by_cases hc : client = c <;> simp [hc, newResolution, List.filter_cons]

theorem resolutionsOf_get :
    resolutionsOf c (getTier3Resolution cfg now d b).2 =
      (resolutionsOf c d).filter fun e => e.1 = b → now - e.2.updatedAt ≤ cfg.resolutionTtlSeconds := by
  have hkeep : (∀ r, d.get? b = some r → now - r.updatedAt ≤ cfg.resolutionTtlSeconds) →
      (resolutionsOf c d).filter (fun e => e.1 = b → now - e.2.updatedAt ≤ cfg.resolutionTtlSeconds) =
        resolutionsOf c d := by
    intro h
    refine List.filter_eq_self.2 fun e he => decide_eq_true ?_
    rintro rfl
    exact h e.2 (mem_resolutionsOf.1 he).1
  unfold getTier3Resolution
  split
  · rename_i hb
    exact (hkeep fun r hr => by rw [hb] at hr; cases hr).symm
  · rename_i r hr
    split <;> rename_i hage
    · rw [resolutionsOf, Dict.entries_erase, resolutionsOf, List.filter_filter, List.filter_filter]
      refine List.filter_congr fun e he => ?_
      by_cases heb : e.1 = b
      · have hold : e.2 = r := by
          rw [← Prod.mk.eta (p := e), heb, Dict.mem_entries_iff, hr] at he
          exact (Option.some.inj he).symm
        have hstale : ¬ (e.1 = b → now - e.2.updatedAt ≤ cfg.resolutionTtlSeconds) := fun h =>
          not_le.2 hage (hold ▸ h heb)
        rw [decide_eq_false hstale]
        simp [heb]
      · simp [heb]
    · refine (hkeep fun r' hr' => ?_).symm
      obtain rfl := Option.some.inj (hr.symm.trans hr')
      exact not_lt.1 hage

/-! ### One resolution among its client's -/

/-- The action's resolution `r`, with `n` of other actions behind it, none made earlier. -/
def Standing (a : String) (r : Tier3Resolution) (n : ℕ) (l : List (String × Tier3Resolution)) : Prop :=
  ∃ older newer, l = older ++ (a, r) :: newer ∧ newer.length = n ∧
    ∀ e ∈ newer, e.1 ≠ a ∧ r.updatedAt ≤ e.2.updatedAt

namespace Standing
variable {l : List (String × Tier3Resolution)}

theorem mem (h : Standing a r n l) : (a, r) ∈ l := by
  obtain ⟨older, newer, rfl, -⟩ := h
  simp

theorem map (h : Standing a r n l) {f : String × Tier3Resolution → String × Tier3Resolution}
    (hf : f (a, r) = (a, r))
    (hkeep : ∀ e, e.1 ≠ a ∧ r.updatedAt ≤ e.2.updatedAt → (f e).1 ≠ a ∧ r.updatedAt ≤ (f e).2.updatedAt) :
    Standing a r n (l.map f) := by
  obtain ⟨older, newer, rfl, hlen, hnewer⟩ := h
  refine ⟨older.map f, newer.map f, by rw [List.map_append, List.map_cons, hf], by simpa using hlen,
    fun e' he' => ?_⟩
  obtain ⟨e, he, rfl⟩ := List.mem_map.1 he'
  exact hkeep e (hnewer e he)

theorem filter (h : Standing a r n l) {p : String × Tier3Resolution → Bool}
    (hp : ∀ e : String × Tier3Resolution, r.updatedAt ≤ e.2.updatedAt → p e) :
    Standing a r n (l.filter p) := by
  obtain ⟨older, newer, rfl, hlen, hnewer⟩ := h
  refine ⟨older.filter p, newer, ?_, hlen, hnewer⟩
  rw [List.filter_append, List.filter_cons_of_pos (hp _ le_rfl),
    List.filter_eq_self.2 fun e he => hp e (hnewer e he).2]

theorem append (h : Standing a r n l) {e : String × Tier3Resolution} (hne : e.1 ≠ a)
    (he : r.updatedAt ≤ e.2.updatedAt) : Standing a r (n + 1) (l ++ [e]) := by
  obtain ⟨older, newer, rfl, hlen, hnewer⟩ := h
  refine ⟨older, newer ++ [e], by simp, by simpa using hlen, fun x hx => ?_⟩
  rcases List.mem_append.1 hx with hx | hx
  · exact hnewer x hx
  · obtain rfl := List.mem_singleton.1 hx; exact ⟨hne, he⟩

/-- The cap keeps it while fewer than the cap are behind it, ... -/
theorem rtake (h : Standing a r n l) {cap : ℕ} (hn : n < cap) : Standing a r n (l.rtake cap) := by
  obtain ⟨older, newer, rfl, rfl, hnewer⟩ := h
  exact ⟨_, newer, rtake_split hn older _, rfl, hnewer⟩

/-- ... and drops it otherwise. -/
theorem not_mem_rtake (h : Standing a r n l) {cap : ℕ} (hn : cap ≤ n) (r' : Tier3Resolution) :
    (a, r') ∉ l.rtake cap := by
  obtain ⟨older, newer, rfl, rfl, hnewer⟩ := h
  rw [List.append_cons, rtake_append_of_le hn]
  exact fun hr' => (hnewer _ (List.mem_of_mem_drop hr')).1 rfl

end Standing

/-- One more resolution of another action: `r` has one more behind it, if it is its client's, and is
dropped when that makes as many as the cap. -/
theorem standing_create (h : Standing a r n (resolutionsOf c d)) (hb : d.get? b = none) (hne : b ≠ a)
    (hnow : r.updatedAt ≤ now) (hage : now - r.updatedAt ≤ cfg.resolutionTtlSeconds) :
    let n' := n + if client = c then 1 else 0
    let l' := resolutionsOf c
      (setTier3Resolution cfg now d b client status detail channel orderNumber)
    (n' < cfg.resolutionMaxPerClient → Standing a r n' l') ∧
      (cfg.resolutionMaxPerClient ≤ n' → ∀ r', (a, r') ∉ l') := by
  have hadd : Standing a r (n + if client = c then 1 else 0) (resolutionsOf c d ++
      if client = c then [(b, newResolution now b client status detail channel orderNumber)] else []) := by
    split
    · exact h.append hne hnow
    · simpa using h
  have hyoung := hadd.filter (p := fun e => now - cfg.resolutionTtlSeconds ≤ e.2.updatedAt)
    fun e he => decide_eq_true (by omega)
  simp only [resolutionsOf_create hb]
  exact ⟨hyoung.rtake, hyoung.not_mem_rtake⟩

theorem standing_apply {s : Tier3Store} {call : Call}
    (h : Standing a r n (resolutionsOf c s.tier3Resolutions)) (hne : call.about ≠ some a)
    (hmark : call.Marked s) (htime : ∀ x, call.time? = some x →
      r.updatedAt ≤ x ∧ x - r.updatedAt ≤ cfg.resolutionTtlSeconds) (hn : n < cfg.resolutionMaxPerClient) :
    let n' := n + if call.creates c then 1 else 0
    (n' < cfg.resolutionMaxPerClient →
      Standing a r n' (resolutionsOf c (call.apply cfg s).tier3Resolutions)) ∧
    (cfg.resolutionMaxPerClient ≤ n' → (call.apply cfg s).tier3Resolutions.get? a = none) := by
  have hr := mem_resolutionsOf.1 h.mem
  -- what makes no entry only has to keep `r` in its place
  have hquiet : call.creates c = false →
      Standing a r n (resolutionsOf c (call.apply cfg s).tier3Resolutions) →
      (n + (if call.creates c then 1 else 0) < cfg.resolutionMaxPerClient →
        Standing a r (n + if call.creates c then 1 else 0)
          (resolutionsOf c (call.apply cfg s).tier3Resolutions)) ∧
      (cfg.resolutionMaxPerClient ≤ n + (if call.creates c then 1 else 0) →
        (call.apply cfg s).tier3Resolutions.get? a = none) := by
    intro hc hs
    rw [hc]
    exact ⟨fun _ => hs, fun hge => absurd hn (not_lt.2 hge)⟩
  cases call with
  | resolved created r' =>
    obtain ⟨hle, hage⟩ := htime r'.updatedAt rfl
    have hba : r'.actionId ≠ a := fun heq => hne (by rw [← heq]; rfl)
    cases hb : s.tier3Resolutions.get? r'.actionId with
    | some existing =>
      have hcreated : created = false := by rw [show created = _ from hmark, hb]; rfl
      refine hquiet (by simp [Call.creates, hcreated]) ?_
      show Standing a r n (resolutionsOf c (setTier3Resolution cfg _ _ _ _ _ _ _ _))
      rw [resolutionsOf_update hb]
      refine h.map (if_neg fun heq => hba heq.symm) fun e he => ?_
      split
      · exact ⟨hba, hle⟩
      · exact he
    | none =>
      have hcreated : created = true := by rw [show created = _ from hmark, hb]; rfl
      have hcreate : let n' := n + if r'.clientId = c then 1 else 0
          let l' := resolutionsOf c ((Call.resolved created r').apply cfg s).tier3Resolutions
          (n' < cfg.resolutionMaxPerClient → Standing a r n' l') ∧
            (cfg.resolutionMaxPerClient ≤ n' → ∀ r₂, (a, r₂) ∉ l') :=
        standing_create h hb hba hle hage
      have hcount : (if (Call.resolved created r').creates c then 1 else 0) =
          if r'.clientId = c then 1 else 0 := by
        by_cases hc : r'.clientId = c <;> simp [Call.creates, hcreated, hc]
      simp only [hcount]
      refine ⟨hcreate.1, fun hge => Option.eq_none_iff_forall_ne_some.2 fun r₂ hr₂ => ?_⟩
      obtain rfl := Option.some.inj (hr.1.symm.trans (get?_resolutions_of_ne hne hr₂))
      exact hcreate.2 hge r (mem_resolutionsOf.2 ⟨hr₂, hr.2⟩)
  | looked now b =>
    refine hquiet rfl ?_
    show Standing a r n (resolutionsOf c (getTier3Resolution cfg now _ b).2)
    rw [resolutionsOf_get]
    obtain ⟨-, hage⟩ := htime now rfl
    exact h.filter fun e he => decide_eq_true fun _ => by omega
  | _ => exact hquiet rfl h

/-! ### From the action's queueing on -/

/-- Every call of the trace says rightly whether it made an entry. -/
def MarkedTrace (cfg : Tier3Config) (trace : List Call) : Prop :=
  ∀ before call after, trace = before ++ call :: after → call.Marked (storeAfter cfg before)

theorem MarkedTrace.concat {trace : List Call} {call : Call} (h : MarkedTrace cfg trace)
    (hc : call.Marked (storeAfter cfg trace)) : MarkedTrace cfg (trace ++ [call]) := by
  intro before call' after heq
  rcases List.eq_nil_or_concat after with rfl | ⟨after, last, rfl⟩
  · obtain ⟨rfl, hlast⟩ := List.append_inj' heq rfl
    obtain rfl : call = call' := by simpa using hlast
    exact hc
  · rw [List.concat_eq_append, ← List.cons_append, ← List.append_assoc] at heq
    exact h before call' after (List.append_inj' heq rfl).1

theorem stable_marked {env : Env} : Stable env (fun _ => True) fun w =>
    w.store = storeAfter env.toTier3Config w.trace ∧ MarkedTrace env.toTier3Config w.trace where
  tick h := h
  call {w call} _ hc h := ⟨store_eq_call h.1, h.2.concat (by cases call <;> trivial)⟩
  read {w _} _ hc h := ⟨store_eq_call (w := w.tick) h.1, h.2.concat (by rw [← h.1]; exact hc.2)⟩

/-- A queued action was last heard of when its resolution was set. -/
theorem resolved_of_pending {trace : List Call} {o : Order} {p : Tier3PendingAction}
    (h : lifeOf a trace = some (some (o, .pending p))) : ∃ before created r after,
      trace = before ++ .resolved created r :: after ∧ r.IsOf o .queued ∧
      lifeOf a before = some (some (o, .entered p)) ∧ ∀ call ∈ after, call.about ≠ some a := by
  induction trace using List.reverseRecOn with
  | nil => cases h
  | append_singleton trace call ih =>
    by_cases hc : call.about = some a
    · obtain ⟨s, hs, hnext⟩ := step_of_lifeOf_concat h hc
      rcases Stage.next_cases hnext with ⟨_, -, -, hcontra⟩ | ⟨o', ph, ph', rfl, heq, hn⟩
      · cases hcontra
      · obtain ⟨rfl, rfl⟩ : o = o' ∧ .pending p = ph' := by simpa using heq
        cases hn with
        | await hr => exact ⟨trace, _, _, [], rfl, hr, hs, by simp⟩
    · rw [lifeOf_append_of_ne (by simpa using hc)] at h
      obtain ⟨before, created, r, after, rfl, hr, hbefore, hafter⟩ := ih h
      refine ⟨before, created, r, after ++ [call], by simp, hr, hbefore, ?_⟩
      simpa [or_imp, forall_and] using ⟨hafter, hc⟩

/-- The entry a first `set_tier3_resolution` makes. -/
def Tier3Resolution.entry (r : Tier3Resolution) : Tier3Resolution :=
  newResolution r.updatedAt r.actionId r.clientId r.status r.detail r.channel r.orderNumber

theorem eq_entry_of_created {s : Tier3Store} {r' : Tier3Resolution}
    (hb : s.tier3Resolutions.get? r.actionId = none)
    (h : ((Call.resolved true r).apply cfg s).tier3Resolutions.get? r.actionId = some r') : r' = r.entry := by
  have h := get?_setTier3Resolution h
  rw [if_pos rfl, hb] at h
  exact h.resolve_right (by rintro ⟨_, ⟨⟩, -⟩)

theorem standing_created {s : Tier3Store} (hb : s.tier3Resolutions.get? r.actionId = none)
    (httl : 0 ≤ cfg.resolutionTtlSeconds) :
    (0 < cfg.resolutionMaxPerClient → Standing r.actionId r.entry 0
      (resolutionsOf r.clientId ((Call.resolved true r).apply cfg s).tier3Resolutions)) ∧
    (cfg.resolutionMaxPerClient ≤ 0 →
      ((Call.resolved true r).apply cfg s).tier3Resolutions.get? r.actionId = none) := by
  have hadd : Standing r.actionId r.entry 0
      (resolutionsOf r.clientId s.tier3Resolutions ++ [(r.actionId, r.entry)]) :=
    ⟨_, [], rfl, rfl, by simp⟩
  have hyoung := hadd.filter (p := fun e => r.updatedAt - cfg.resolutionTtlSeconds ≤ e.2.updatedAt)
    fun e he => decide_eq_true (by
      have he : r.updatedAt ≤ e.2.updatedAt := he
      omega)
  have hentries : resolutionsOf r.clientId ((Call.resolved true r).apply cfg s).tier3Resolutions =
      ((resolutionsOf r.clientId s.tier3Resolutions ++ [(r.actionId, r.entry)]).filter fun e =>
        r.updatedAt - cfg.resolutionTtlSeconds ≤ e.2.updatedAt).rtake cfg.resolutionMaxPerClient := by
    refine (resolutionsOf_create hb).trans ?_
    rw [if_pos rfl]
    rfl
  rw [hentries]
  refine ⟨hyoung.rtake, fun hcap => Option.eq_none_iff_forall_ne_some.2 fun r' hr' => ?_⟩
  have hmem := mem_resolutionsOf.2 ⟨hr', congrArg Tier3Resolution.clientId (eq_entry_of_created hb hr')⟩
  rw [show r.entry.clientId = r.clientId from rfl, hentries] at hmem
  exact hyoung.not_mem_rtake hcap r' hmem

theorem get?_resolutions_append {before after : List Call} {r' : Tier3Resolution}
    (habout : ∀ call ∈ after, call.about ≠ some a)
    (h : (storeAfter cfg (before ++ after)).tier3Resolutions.get? a = some r') :
    (storeAfter cfg before).tier3Resolutions.get? a = some r' := by
  induction after using List.reverseRecOn with
  | nil => simpa using h
  | append_singleton after call ih =>
    rw [← List.append_assoc, storeAfter_concat] at h
    exact ih (fun call hc => habout call (by simp [hc])) (get?_resolutions_of_ne (habout call (by simp)) h)

/-- While it is young, a resolution is there exactly until the cap is behind it. -/
theorem standing_run {before after : List Call}
    (hbase : (0 < cfg.resolutionMaxPerClient →
        Standing a r 0 (resolutionsOf c (storeAfter cfg before).tier3Resolutions)) ∧
      (cfg.resolutionMaxPerClient ≤ 0 → (storeAfter cfg before).tier3Resolutions.get? a = none))
    (habout : ∀ call ∈ after, call.about ≠ some a) (hmark : MarkedTrace cfg (before ++ after))
    (htime : ∀ call ∈ after, ∀ x, call.time? = some x →
      r.updatedAt ≤ x ∧ x - r.updatedAt ≤ cfg.resolutionTtlSeconds) :
    (after.countP (Call.creates c) < cfg.resolutionMaxPerClient →
      Standing a r (after.countP (Call.creates c))
        (resolutionsOf c (storeAfter cfg (before ++ after)).tier3Resolutions)) ∧
    (cfg.resolutionMaxPerClient ≤ after.countP (Call.creates c) →
      (storeAfter cfg (before ++ after)).tier3Resolutions.get? a = none) := by
  induction after using List.reverseRecOn with
  | nil => simpa using hbase
  | append_singleton after call ih =>
    have hlast := hmark (before ++ after) call [] (by simp)
    have ih := ih (fun call hc => habout call (by simp [hc]))
      (fun b c' l heq => hmark b c' (l ++ [call]) (by rw [← List.append_assoc, heq]; simp))
      fun call hc => htime call (by simp [hc])
    rw [← List.append_assoc, storeAfter_concat, List.countP_append, List.countP_singleton]
    rcases lt_or_ge (after.countP (Call.creates c)) cfg.resolutionMaxPerClient with hn | hn
    · exact standing_apply (ih.1 hn) (habout call (by simp)) hlast (htime call (by simp)) hn
    · refine ⟨fun hlt => absurd (Nat.lt_of_le_of_lt (Nat.le_add_right _ _) hlt) (not_lt.2 hn),
        fun _ => Option.eq_none_iff_forall_ne_some.2 fun r' hr' => ?_⟩
      have hold := get?_resolutions_of_ne (habout call (by simp)) hr'
      rw [ih.2 hn] at hold
      cases hold

theorem getTier3Resolution_eq_some {r' : Tier3Resolution} :
    (getTier3Resolution cfg now d a).1 = some r' ↔
      d.get? a = some r' ∧ now - r'.updatedAt ≤ cfg.resolutionTtlSeconds := by
  unfold getTier3Resolution
  split
  · rename_i hnone
    simp [hnone]
  · rename_i r hr
    split <;> rename_i hage
    · simp only [reduceCtorEq, hr, Option.some.injEq, false_iff, not_and, not_le]
      rintro rfl; exact hage
    · simp only [hr, Option.some.injEq]
      exact ⟨fun heq => ⟨heq, heq ▸ not_lt.1 hage⟩, And.left⟩

/-! ### In a run -/

variable {env : Env} {w : World} {p : Tier3PendingAction}

theorem standing_of_split {before after : List Call} (hm : MarkedTrace env.toTier3Config w.trace)
    (ht : Timed env w) (hpast : env.Past w t) (hw : w.trace = before ++ .resolved true r :: after)
    (habout : ∀ call ∈ after, call.about ≠ some r.actionId)
    (hage : t - r.updatedAt ≤ env.resolutionTtlSeconds) :
    (after.countP (Call.creates r.clientId) < env.resolutionMaxPerClient →
      (storeAfter env.toTier3Config w.trace).tier3Resolutions.get? r.actionId = some r.entry) ∧
    (env.resolutionMaxPerClient ≤ after.countP (Call.creates r.clientId) →
      (storeAfter env.toTier3Config w.trace).tier3Resolutions.get? r.actionId = none) := by
  have hb : (storeAfter env.toTier3Config before).tier3Resolutions.get? r.actionId = none :=
    Option.isNone_iff_eq_none.1 (hm before _ after hw).symm
  have hpasts := ht.le_of_past hpast
  have hsorted := ht.sorted
  rw [hw, List.filterMap_append, List.filterMap_cons] at hpasts hsorted
  have hmade : r.updatedAt ≤ t := hpasts _ (by simp [Call.time?])
  have hlater := (List.pairwise_cons.1 (List.pairwise_append.1 hsorted).2.1).1
  have httl : 0 ≤ env.toTier3Config.resolutionTtlSeconds := by omega
  have hbase := standing_created hb httl
  rw [← storeAfter_concat] at hbase
  have hrun := standing_run hbase habout (by rwa [List.append_assoc, List.singleton_append, ← hw])
    fun call hc x hx => by
      have hxmem : x ∈ after.filterMap Call.time? := List.mem_filterMap.2 ⟨call, hc, hx⟩
      have hle : r.updatedAt ≤ x := hlater x hxmem
      have hxt : x ≤ t := hpasts x (List.mem_append_right _ (List.mem_cons_of_mem _ hxmem))
      exact ⟨hle, by show x - r.updatedAt ≤ _; omega⟩
  rw [List.append_assoc, List.singleton_append, ← hw] at hrun
  exact ⟨fun hn => (mem_resolutionsOf.1 (hrun.1 hn).mem).1, hrun.2⟩

/-- What a poll finds of a queued action is its owner's and says "queued". -/
theorem shows_queued_of_pending (hg : Good env w w.handlers) (hp : p ∈ w.store.tier3Pending.values)
    (h : (getTier3Resolution env.toTier3Config t w.store.tier3Resolutions p.actionId).1 = some r) :
    r.clientId = p.clientId ∧ r.status = .queued := by
  have hget := (getTier3Resolution_eq_some.1 h).1
  rw [hg.store_eq] at hget
  obtain ⟨o, ph, st, heq, hst, hof⟩ := resolution_storeAfter hg.inv.lawful (hg.life_of_mem hp) hget
  cases heq
  cases hst
  exact ⟨hof.2.1, hof.2.2⟩

theorem pollable_iff (hg : Good env w w.handlers) (ht : Timed env w)
    (hm : MarkedTrace env.toTier3Config w.trace) (hp : p ∈ w.store.tier3Pending.values)
    (hpast : env.Past w t) : Pollable env w t p ↔ Fits env w t p := by
  have hlife := hg.life_of_mem hp
  rw [Pollable, hg.store_eq]
  constructor
  · rintro ⟨r', hr', -, -⟩
    obtain ⟨hget, hage⟩ := getTier3Resolution_eq_some.1 hr'
    obtain ⟨before, created, r, after, hw, hr, hbefore, habout⟩ := resolved_of_pending hlife
    have hb : (storeAfter env.toTier3Config before).tier3Resolutions.get? r.actionId = none := by
      refine Option.eq_none_iff_forall_ne_some.2 fun r₀ hr₀ => ?_
      have hlawful : Lawful before := (hw ▸ hg.inv.lawful).of_append
      rw [show r.actionId = p.actionId from hr.1] at hr₀
      obtain ⟨_, _, _, heq, hst, -⟩ := resolution_storeAfter hlawful hbefore hr₀
      cases heq; cases hst
    obtain rfl : created = true := by
      rw [show created = _ from hm before _ after hw, hb]; rfl
    have hid : r.actionId = p.actionId := hr.1
    have hclient : r.clientId = p.clientId := hr.2.1
    -- the entry is still the one made then
    have hentry : r' = r.entry := by
      have hmade : (storeAfter env.toTier3Config (before ++ [.resolved true r])).tier3Resolutions.get?
          r.actionId = some r' := by
        refine get?_resolutions_append (by rwa [hid]) ?_
        rw [List.append_assoc, List.singleton_append, ← hw, hid]
        exact hget
      rw [storeAfter_concat] at hmade
      exact eq_entry_of_created hb hmade
    have hyoung : t - r.updatedAt ≤ env.resolutionTtlSeconds := by rw [hentry] at hage; exact hage
    refine ⟨before, r, after, hw, hr, habout, hyoung, not_le.1 fun hcap => ?_⟩
    have hnone := (standing_of_split hm ht hpast hw (by rwa [hid]) hyoung).2 (by rwa [hclient])
    rw [hid, hget] at hnone
    cases hnone
  · rintro ⟨before, r, after, hw, hr, habout, hyoung, hn⟩
    have hid : r.actionId = p.actionId := hr.1
    have hclient : r.clientId = p.clientId := hr.2.1
    have hget := (standing_of_split hm ht hpast hw (by rwa [hid]) hyoung).1 (by rwa [hclient])
    rw [hid] at hget
    exact ⟨r.entry, getTier3Resolution_eq_some.2 ⟨hget, hyoung⟩, hclient, hr.2.2⟩

end

/-- In every state of every run, the owner's poll of a queued action finds it queued exactly while its
resolution fits, and answers 404 otherwise. -/
theorem pollable_iff_fits (env : Env) (w : World) (h : Reaches (step env) anyAct .init w)
    (p : Tier3PendingAction) (hp : p ∈ w.store.tier3Pending.values) :
    (∀ t, env.Past w t → (Pollable env w t p ↔ Fits env w t p)) ∧
    ∀ i w', w.handlers i = some (.polling p.clientId p.actionId) → step env w (.pollRead i) = some w' →
      (w'.handlers i = some (.answered (.error 404 "unknown action id")) ↔ ¬ Fits env w (w.now env) p) := by
  have hg := good_of_reaches h
  have hmark := stable_marked.of_reaches (fun _ _ h => h)
    ⟨rfl, fun before call after heq => by simp [World.init] at heq⟩ h
  have hiff : ∀ t, env.Past w t → (Pollable env w t p ↔ Fits env w t p) :=
    fun t hpast => pollable_iff hg (timed_of_reaches h) hmark.2 hp hpast
  refine ⟨hiff, fun i w' hi hw => ?_⟩
  rw [← hiff (w.now env) (fun _ hk => env.clock_mono hk.le), Pollable]
  simp only [step, hi] at hw
  cases hfound : (getTier3Resolution env.toTier3Config (w.now env) w.store.tier3Resolutions
      p.actionId).1 with
  | none =>
    simp only [hfound, Option.some.injEq] at hw
    subst hw
    simp [World.goto]
  | some r =>
    obtain ⟨hclient, hqueued⟩ := shows_queued_of_pending hg hp hfound
    simp only [hfound, hclient, if_true, Option.some.injEq] at hw
    subst hw
    simp [World.goto, hclient, hqueued]

/-- Two orders of `partner-a` over its mandate. -/
def twoQueuedActs : List Act :=
  [.putGrant "partner-a" 100] ++ arrive 0 "partner-a" "act-1" (chair 300 chair_range) ++ [.reserve 0] ++
    arrive 1 "partner-a" "act-2" (chair 300 chair_range) ++ [.reserve 1]

theorem pollable_iff_fits_queued : ∃ w p, p ∈ w.store.tier3Pending.values ∧
    Pollable (.ticking ⟨100, 50, 100, 10, 100, 2⟩) w 9 p ∧
    Fits (.ticking ⟨100, 50, 100, 10, 100, 2⟩) w 9 p := by
  let env : Env := .ticking ⟨100, 50, 100, 10, 100, 2⟩
  obtain ⟨w, hw, hp⟩ := exists_reaches_of_run (step env) anyAct .init twoQueuedActs
    (fun w => decide (w.reads ≤ 10 ∧ ∃ p ∈ w.store.tier3Pending.values,
      ((getTier3Resolution env.toTier3Config 9 w.store.tier3Resolutions p.actionId).1.any fun r =>
        r.clientId = p.clientId ∧ r.status = .queued) = true)) (fun _ _ _ => trivial) (by decide)
  obtain ⟨hreads, p, hp, hfound⟩ := of_decide_eq_true hp
  have hpoll : Pollable env w 9 p := by
    obtain ⟨r, hr, hshow⟩ := (Option.any_eq_true _ _).1 hfound
    exact ⟨r, hr, of_decide_eq_true hshow⟩
  have hpast : env.Past w 9 := fun k hk => by
    show (k : ℤ) ≤ 9
    omega
  exact ⟨w, p, hp, hpoll, ((pollable_iff_fits env w hw p hp).1 9 hpast).1 hpoll⟩

/-- With a resolution cap of 1 the second queued order evicts the resolution of the first, which can
still be approved. -/
theorem not_pollable : ¬ ∀ (env : Env) (w : World), env.toTier3Config.Positive →
    Reaches (step env) anyAct .init w → ∀ p ∈ w.store.tier3Pending.values, ∀ t, env.Past w t →
    t ≤ p.expiresAt → Pollable env w t p := by
  intro h
  let env : Env := .ticking ⟨100, 50, 100, 10, 100, 1⟩
  obtain ⟨w, hw, hp⟩ := exists_reaches_of_run (step env) anyAct .init twoQueuedActs
    (fun w => decide (∃ p ∈ w.store.tier3Pending.values, w.now env ≤ p.expiresAt ∧
      w.store.tier3Resolutions.get? p.actionId = none)) (fun _ _ _ => trivial) (by decide)
  obtain ⟨p, hp, hopen, hnone⟩ := of_decide_eq_true hp
  have hpositive : env.toTier3Config.Positive := ⟨by decide, by decide, by decide, by decide, by decide,
    by decide⟩
  obtain ⟨r, hr, -⟩ := h env w hpositive hw p hp (w.now env) (fun _ hk => env.clock_mono hk.le) hopen
  rw [(getTier3Resolution_eq_some.1 hr).1] at hnone
  cases hnone

end Embassy
