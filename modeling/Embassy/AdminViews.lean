import Embassy.TenantIsolation

/-!
# What the admin sees

`list_tier3_approvals`, `get_tier3_audit` and `_tier3_grant_dict` of `verify/main.py`. The list of
approvals shows exactly the actions a human can decide now, oldest first, each with its client's current
grant (`approvalsExact_of_reaches`). The audit list shows, newest first, exactly the newest
`tier3_audit_max` events of each client that are in the window of the last recorded event, settlements
included (`auditExact_of_reaches`).
-/

namespace Embassy
open Lib

/-- What `_tier3_grant_dict` answers. -/
structure GrantDict where
  clientId : String
  weeklyLimitCents : Option ℕ
  usedCents : ℕ
  remainingCents : Option ℤ
  windowSeconds : ℤ
  deriving DecidableEq

/-- `_tier3_grant_dict`, where `tier3_used_cents` reads `now`. -/
def tier3GrantDict (cfg : Tier3Config) (s : Tier3Store) (now : ℤ) (clientId : String) : GrantDict :=
  let limit := s.tier3Grants.get? clientId
  let used := tier3UsedCents cfg s.tier3Events clientId now
  ⟨clientId, limit, used, limit.map fun limit => (limit : ℤ) - used, cfg.windowSeconds⟩

/-- An entry of `list_tier3_approvals`. -/
structure ApprovalEntry where
  action : Tier3PendingAction
  grant : GrantDict
  deriving DecidableEq

namespace World
variable (env : Env)

/-- The entries of the queue's actions; each `_tier3_grant_dict` takes a reading. -/
def approvalEntries : List Tier3PendingAction → World → List ApprovalEntry × World
  | [], w => ([], w)
  | a :: actions, w =>
    let grant := tier3GrantDict env.toTier3Config w.store (w.now env) a.clientId
    let (entries, w) := approvalEntries actions w.tick
    (⟨a, grant⟩ :: entries, w)

/-- `list_tier3_approvals`; `sorted` is stable. -/
def listTier3Approvals (w : World) : List ApprovalEntry × World :=
  let w := w.pruneTier3Pending env
  approvalEntries env (w.store.tier3Pending.values.mergeSort fun a b => a.queuedAt ≤ b.queuedAt) w

/-- `get_tier3_audit` -/
def getTier3Audit (w : World) : List Tier3Event := w.store.tier3Events.reverse

end World

def Call.queuedAction? : Call → Option Tier3PendingAction
  | queued p => some p
  | _ => none

section
variable {cfg : Tier3Config} {trace : List Call}

theorem values_pending_sublist (h : Lawful trace) :
    (storeAfter cfg trace).tier3Pending.values.Sublist (trace.filterMap Call.queuedAction?) := by
  induction trace using List.reverseRecOn with
  | nil => exact .slnil
  | append_singleton trace call ih =>
    have ih := ih h.of_append
    rw [storeAfter_concat, List.filterMap_append]
    cases call with
    | queued p =>
      obtain ⟨s, s', hs, hnext, -⟩ := h.step_of_concat (a := p.actionId) rfl
      rcases Stage.next_cases hnext with ⟨_, -, hcontra, -⟩ | ⟨o, ph, ph', rfl, rfl, hn⟩
      · cases hcontra
      · cases hn with
        | enqueue =>
          have hnone : (storeAfter cfg trace).tier3Pending.get? p.actionId = none :=
            get?_pending h.of_append hs
          simp only [Call.apply, Dict.values]
          rw [Dict.entries_set_of_not_mem _ _ (Dict.get?_eq_none_iff.1 hnone), List.map_append]
          exact ih.append (List.Sublist.refl _)
    | popped exit now p => exact ((List.filter_sublist.map _).trans ih).trans (List.sublist_append_left ..)
    | _ => exact ih.trans (List.sublist_append_left ..)

theorem queuedAt_sublist (trace : List Call) :
    ((trace.filterMap Call.queuedAction?).map Tier3PendingAction.queuedAt).Sublist
      (trace.filterMap Call.time?) := by
  induction trace with
  | nil => exact .slnil
  | cons call trace ih =>
    cases call with
    | queued p => exact ih.cons_cons _
    | recorded | reserved | resolved | looked => exact ih.cons _
    | _ => exact ih

end

/-! ### The approvals -/

/-- What the approvals list promises in a state `w`, with `w₁` the state after its prune. -/
structure ApprovalsExact (env : Env) (w : World) : Prop where
  /-- The actions are those of the queue in the order they were queued, ... -/
  oldestFirst : ((w.listTier3Approvals env).1.map ApprovalEntry.action).Sublist
    (w.trace.filterMap Call.queuedAction?)
  /-- ... each once. -/
  distinct : ((w.listTier3Approvals env).1.map fun e => e.action.actionId).Nodup
  /-- What is listed can be rejected, ... -/
  rejectable : ∀ a, (∃ e ∈ (w.listTier3Approvals env).1, e.action.actionId = a) ↔
    (w.rejectTier3Action env a).2 = .answered (.rejected a)
  /-- ... and approved if its client is shown with a grant: for the action shown, against the grant
  shown, with at least the use shown. -/
  approvable : ∀ e ∈ (w.listTier3Approvals env).1, (w.approveTier3Action env e.action.actionId).2 =
    match e.grant.weeklyLimitCents with
    | none => .answered (.error 409 "this client's mandate was revoked while the action was pending")
    | some limit => .reserved ⟨e.action.order, limit,
      (w.pruneTier3Pending env).usedCents env e.action.clientId, true⟩
  /-- What is not listed cannot be decided. -/
  unlisted : ∀ a, (∀ e ∈ (w.listTier3Approvals env).1, e.action.actionId ≠ a) →
    (w.approveTier3Action env a).2 = .answered (.error 404 "unknown, expired, or already resolved action") ∧
    (w.rejectTier3Action env a).2 = .answered (.error 404 "unknown, expired, or already resolved action")
  /-- The grant shown is the action's client's at the time of the listing. -/
  current : ∀ e ∈ (w.listTier3Approvals env).1, ∃ t, (w.pruneTier3Pending env).now env ≤ t ∧
    e.grant = tier3GrantDict env.toTier3Config (w.pruneTier3Pending env).store t e.action.clientId
  /-- Listing changes nothing but what the prune expires. -/
  store : (w.listTier3Approvals env).2.store = (w.pruneTier3Pending env).store

section
variable {env : Env} {w : World} {a : String}

theorem map_approvalEntries (as : List Tier3PendingAction) (w : World) :
    (w.approvalEntries env as).1.map ApprovalEntry.action = as := by
  induction as generalizing w with
  | nil => rfl
  | cons a as ih => exact congrArg (a :: ·) (ih w.tick)

theorem store_approvalEntries (as : List Tier3PendingAction) (w : World) :
    (w.approvalEntries env as).2.store = w.store := by
  induction as generalizing w with
  | nil => rfl
  | cons a as ih => exact ih w.tick

theorem grant_of_approvalEntries {as : List Tier3PendingAction} {w : World} {e : ApprovalEntry}
    (he : e ∈ (w.approvalEntries env as).1) : ∃ t, w.now env ≤ t ∧
      e.grant = tier3GrantDict env.toTier3Config w.store t e.action.clientId := by
  induction as generalizing w with
  | nil => cases he
  | cons a as ih =>
    rcases List.mem_cons.1 he with rfl | he
    · exact ⟨w.now env, le_rfl, rfl⟩
    · obtain ⟨t, ht, heq⟩ := ih he
      exact ⟨t, le_trans (env.clock_mono (Nat.le_succ w.reads)) ht, heq⟩

/-- Sorting the queue by `queued_at` changes nothing. -/
theorem actions_listTier3Approvals (hg : Good env w w.handlers) (ht : Timed env w) :
    (w.listTier3Approvals env).1.map ApprovalEntry.action =
      (w.pruneTier3Pending env).store.tier3Pending.values ∧
    (w.pruneTier3Pending env).store.tier3Pending.values.Sublist
      (w.trace.filterMap Call.queuedAction?) := by
  have hprune : (w.pruneTier3Pending env).store.tier3Pending.values.Sublist
      w.store.tier3Pending.values := by
    rw [Dict.values, entries_prune hg.keyed]
    exact List.filter_sublist.map _
  have hsub := hprune.trans (hg.store_eq ▸ values_pending_sublist hg.inv.lawful)
  have htimes := ht.sorted.sublist ((hsub.map Tier3PendingAction.queuedAt).trans (queuedAt_sublist _))
  rw [List.pairwise_map] at htimes
  refine ⟨?_, hsub⟩
  rw [World.listTier3Approvals]
  exact (map_approvalEntries _ _).trans
    (List.mergeSort_of_pairwise (htimes.imp fun h => decide_eq_true h))

theorem exists_listed_iff (hg : Good env w w.handlers) (ht : Timed env w) :
    (∃ e ∈ (w.listTier3Approvals env).1, e.action.actionId = a) ↔
      ∃ p, (w.pruneTier3Pending env).store.tier3Pending.get? a = some p := by
  have hkeyed := hg.prune.1.keyed
  have hactions := (actions_listTier3Approvals hg ht).1
  constructor
  · rintro ⟨e, he, rfl⟩
    exact ⟨e.action, hkeyed.get? (hactions ▸ List.mem_map_of_mem he)⟩
  · rintro ⟨p, hp⟩
    have hmem := Dict.mem_values_iff.2 ⟨a, hp⟩
    rw [← hactions] at hmem
    obtain ⟨e, he, rfl⟩ := List.mem_map.1 hmem
    exact ⟨e, he, hkeyed a _ hp⟩

/-- In every state of every run the list of approvals shows what can be decided. -/
theorem approvalsExact_of_reaches (env : Env) (w : World) (h : Reaches (step env) anyAct .init w) :
    ApprovalsExact env w := by
  have hg := good_of_reaches h
  have ht := timed_of_reaches h
  have hkeyed := hg.prune.1.keyed
  obtain ⟨hactions, hsub⟩ := actions_listTier3Approvals hg ht
  refine ⟨hactions ▸ hsub, ?_, fun a => ?_, fun e he => ?_, fun a hno => ?_, fun e he => ?_,
    store_approvalEntries _ _⟩
  · have hnodup := hkeyed.nodup_map (List.Sublist.refl _)
    rw [← hactions, List.map_map] at hnodup
    exact hnodup
  · rw [exists_listed_iff hg ht, World.rejectTier3Action]
    split <;> rename_i hp <;> simp [hp]
  · have hp := hkeyed.get? (hactions ▸ List.mem_map_of_mem he)
    obtain ⟨t, -, hgrant⟩ := grant_of_approvalEntries he
    rw [World.approveTier3Action, hgrant]
    simp only [hp, tier3GrantDict]
    cases (w.pruneTier3Pending env).store.tier3Grants.get? e.action.clientId <;> rfl
  · have hnone : (w.pruneTier3Pending env).store.tier3Pending.get? a = none := by
      rw [Option.eq_none_iff_forall_ne_some]
      intro p hp
      obtain ⟨e, he, hid⟩ := (exists_listed_iff hg ht).2 ⟨p, hp⟩
      exact hno e he hid
    rw [World.approveTier3Action, World.rejectTier3Action]
    simp only [hnone, and_self]
  · exact grant_of_approvalEntries he

theorem approvalsExact_of_reaches_queued : ∃ w, w.store.tier3Pending.keys = ["act-1", "act-2"] ∧
    ApprovalsExact (.ticking ⟨100, 50, 100, 10, 100, 50⟩) w := by
  obtain ⟨w, hw, hp⟩ := exists_reaches_of_run (step (.ticking ⟨100, 50, 100, 10, 100, 50⟩)) anyAct .init
    twoQueuedActs (fun w => decide (w.store.tier3Pending.keys = ["act-1", "act-2"]))
    (fun _ _ _ => trivial) (by decide)
  exact ⟨w, of_decide_eq_true hp, approvalsExact_of_reaches _ w hw⟩

end

/-! ### The audit list -/

def AuditCall.recordTime? : AuditCall → Option ℤ
  | record e => some e.atTime
  | _ => none

section
variable {cfg : Tier3Config} {calls : List AuditCall} {c : String} {t : ℤ}

theorem history_eq_nil (h : calls.filterMap AuditCall.recordTime? = []) :
    history calls = [] ∧ replay cfg calls = [] := by
  induction calls using List.reverseRecOn with
  | nil => exact ⟨rfl, rfl⟩
  | append_singleton calls call ih =>
    rw [List.filterMap_append, List.append_eq_nil_iff] at h
    obtain ⟨hhist, hreplay⟩ := ih h.1
    rw [history_concat, replay_concat, hhist, hreplay]
    cases call with
    | record e => cases h.2
    | settle | used => exact ⟨rfl, rfl⟩

theorem recordTime_subset (calls : List AuditCall) :
    calls.filterMap AuditCall.recordTime? ⊆ calls.filterMap AuditCall.time? := by
  intro x hx
  obtain ⟨call, hcall, hx⟩ := List.mem_filterMap.1 hx
  cases call with
  | record e => exact List.mem_filterMap.2 ⟨_, hcall, hx⟩
  | settle | used => cases hx

theorem byClient_append (l l' : List Tier3Event) : byClient c (l ++ l') = byClient c l ++ byClient c l' :=
  List.filter_append ..

/-- Each client's rows are the newest of its events in the window of the last recorded one. -/
theorem byClient_replay_eq (hch : Chronological calls) (hone : OneClient calls)
    (ht : (calls.filterMap AuditCall.recordTime?).getLast? = some t) :
    byClient c (replay cfg calls) =
      freshest Tier3Event.atTime cfg.auditMax (t - cfg.windowSeconds) (byClient c (history calls)) := by
  induction calls using List.reverseRecOn generalizing t with
  | nil => cases ht
  | append_singleton calls call ih =>
    have ih := fun t => @ih t hch.of_concat hone.of_concat
    have hsort : Sorted Tier3Event.atTime (byClient c (history calls)) :=
      List.Pairwise.filter _ (sorted_history hch.of_concat)
    rw [replay_concat, history_concat]
    cases call with
    | record e =>
      obtain rfl : e.atTime = t := by
        simpa [List.filterMap_append, AuditCall.recordTime?] using ht
      rw [AuditCall.apply, AuditCall.applyFull, byClient_recordTier3Event, byClient_append, byClient_append]
      cases hlast : (calls.filterMap AuditCall.recordTime?).getLast? with
      | none =>
        obtain ⟨hhist, hreplay⟩ := @history_eq_nil cfg _ (List.getLast?_eq_none_iff.1 hlast)
        rw [hhist, hreplay]
        rfl
      | some t₀ =>
        have hle : t₀ ≤ e.atTime := hch.le rfl (recordTime_subset calls (List.mem_of_getLast? hlast))
        rw [ih t₀ hlast]
        exact freshest_append hsort (by omega) _
    | settle a o r n =>
      have ht : (calls.filterMap AuditCall.recordTime?).getLast? = some t := by
        simpa [List.filterMap_append, AuditCall.recordTime?] using ht
      rw [AuditCall.apply, AuditCall.applyFull]
      by_cases hc : usedBy calls c a
      · rw [byClient_settle_of_own fun e he ha => hone.of_concat a _ _ (usedBy_of_mem_replay he ha) hc,
          byClient_settle_of_own fun e he ha => hone.of_concat a _ _ (usedBy_of_mem_history he ha) hc,
          ih t ht, settleTier3Event, settleTier3Event]
        exact (freshest_modifyNewest (f := Tier3Event.settle o r n) (fun _ => rfl) hsort).symm
      · rw [byClient_settle_of_not fun e he ha hec => by
            subst hec; exact hc (usedBy_of_mem_replay he ha),
          byClient_settle_of_not fun e he ha hec => by
            subst hec; exact hc (usedBy_of_mem_history he ha)]
        exact ih t ht
    | used =>
      have ht : (calls.filterMap AuditCall.recordTime?).getLast? = some t := by
        simpa [List.filterMap_append, AuditCall.recordTime?] using ht
      exact ih t ht

theorem times_replay_sublist (cfg : Tier3Config) (calls : List AuditCall) :
    ((replay cfg calls).map Tier3Event.atTime).Sublist ((history calls).map Tier3Event.atTime) := by
  induction calls using List.reverseRecOn with
  | nil => exact .slnil
  | append_singleton calls call ih =>
    rw [replay_concat, history_concat]
    cases call with
    | record e =>
      have hsub : (recordTier3Event cfg (replay cfg calls) e).Sublist (replay cfg calls ++ [e]) :=
        (capPerKey_sublist _).trans List.filter_sublist
      refine (hsub.map Tier3Event.atTime).trans ?_
      rw [AuditCall.applyFull, List.map_append, List.map_append]
      exact ih.append (List.Sublist.refl _)
    | settle a o r n =>
      simp only [AuditCall.apply, AuditCall.applyFull]
      rwa [map_settleTier3Event fun _ _ _ _ => rfl, map_settleTier3Event fun _ _ _ _ => rfl]
    | used => exact ih

theorem sorted_replay (hch : Chronological calls) : Sorted Tier3Event.atTime (replay cfg calls) := by
  have hsorted := sorted_history hch
  unfold Sorted at hsorted ⊢
  rw [← List.pairwise_map] at hsorted ⊢
  exact hsorted.sublist (times_replay_sublist cfg calls)

theorem recordTimes_auditCalls (trace : List Call) :
    (auditCalls trace).filterMap AuditCall.recordTime? =
      (trace.filterMap Call.event?).map Tier3Event.atTime := by
  rw [auditCalls, List.filterMap_filterMap, List.map_filterMap]
  refine List.filterMap_congr fun call _ => ?_
  cases call <;> rfl

end

/-- What the audit list promises in a state `w`. -/
structure AuditExact (env : Env) (w : World) : Prop where
  /-- The newest event comes first. -/
  newestFirst : w.getTier3Audit.Pairwise fun e e' => e'.atTime ≤ e.atTime
  /-- Of each client it lists the newest of all the events ever recorded, with their settlements, that
  are in the window of the last recorded one: as many of them as there are, up to the cap. -/
  exact : ∀ last, (w.trace.filterMap Call.event?).getLast? = some last → ∀ c,
    (w.getTier3Audit.filter fun e => e.clientId = c) =
      (freshest Tier3Event.atTime env.auditMax (last.atTime - env.windowSeconds)
        (byClient c (history (auditCalls w.trace)))).reverse
  /-- It is empty while nothing was recorded. -/
  empty : w.trace.filterMap Call.event? = [] → w.getTier3Audit = []

/-- In every state of every run the audit list is exact. -/
theorem auditExact_of_reaches (env : Env) (w : World) (h : Reaches (step env) anyAct .init w) :
    AuditExact env w := by
  have hg := good_of_reaches h
  have ht := timed_of_reaches h
  have hevents : w.store.tier3Events = replay env.toTier3Config (auditCalls w.trace) := by
    rw [hg.store_eq, tier3Events_storeAfter]
  refine ⟨?_, fun last hlast c => ?_, fun hnone => ?_⟩
  · rw [World.getTier3Audit, List.pairwise_reverse, hevents]
    exact sorted_replay ht.chronological
  · rw [World.getTier3Audit, List.filter_reverse, hevents]
    refine congrArg List.reverse (byClient_replay_eq ht.chronological hg.inv.lawful.oneClient ?_)
    rw [recordTimes_auditCalls, List.getLast?_map, hlast]
    rfl
  · rw [World.getTier3Audit, hevents, (history_eq_nil (by rw [recordTimes_auditCalls, hnone]; rfl)).2]
    rfl

theorem auditExact_of_reaches_executed : ∃ w, w.getTier3Audit.map Tier3Event.orderNumber = [some "PO-1", none] ∧
    AuditExact (.ticking ⟨100, 50, 100, 10, 100, 50⟩) w := by
  obtain ⟨w, hw, hp⟩ := exists_reaches_of_run (step (.ticking ⟨100, 50, 100, 10, 100, 50⟩)) anyAct .init
    executedActs (fun w => decide (w.getTier3Audit.map Tier3Event.orderNumber = [some "PO-1", none]))
    (fun _ _ _ => trivial) (by decide)
  exact ⟨w, of_decide_eq_true hp, auditExact_of_reaches _ w hw⟩

end Embassy
