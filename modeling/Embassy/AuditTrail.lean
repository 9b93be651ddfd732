import Embassy.Lib.LogTail
import Embassy.Tier3Store

/-!
# The audit trail as a log of its calls

A history of `record_tier3_event`, `settle_tier3_event` and `tier3_used_cents` calls is replayed on
the pruned list (`replay`) and on a list nothing is ever dropped from (`history`). Through one client
the pruned list is a `Tail` of the full one (`tail_replay`), and the full one only depends on the
client's own calls (`history_own`); so no client's budget depends on another's calls.
-/

namespace Embassy
open Lib

inductive AuditCall
  | record (e : Tier3Event)
  | settle (actionId : String) (outcome : Outcome) (reason : String) (orderNumber : Option String)
  | used (clientId : String) (now : ℤ)
  deriving DecidableEq, Repr

namespace AuditCall

def time? : AuditCall → Option ℤ
  | record e => some e.atTime
  | settle .. => none
  | used _ now => some now

/-- The effect of a call on `tier3_events`. -/
def apply (cfg : Tier3Config) (events : List Tier3Event) : AuditCall → List Tier3Event
  | record e => recordTier3Event cfg events e
  | settle actionId outcome reason orderNumber =>
    settleTier3Event events actionId outcome reason orderNumber
  | used .. => events

/-- The effect of a call on a list that is never pruned. -/
def applyFull (events : List Tier3Event) : AuditCall → List Tier3Event
  | record e => events ++ [e]
  | settle actionId outcome reason orderNumber =>
    settleTier3Event events actionId outcome reason orderNumber
  | used .. => events

end AuditCall

/-- `tier3_events` after the calls. -/
def replay (cfg : Tier3Config) (calls : List AuditCall) : List Tier3Event :=
  calls.foldl (AuditCall.apply cfg) []

/-- Every event ever recorded, with its settlement. -/
def history (calls : List AuditCall) : List Tier3Event := calls.foldl AuditCall.applyFull []

/-- The client used this action id in one of its events. -/
def usedBy (calls : List AuditCall) (clientId actionId : String) : Bool :=
  calls.any fun
    | .record e => e.clientId = clientId ∧ e.actionId = some actionId
    | _ => false

/-- The client's own calls: its events, the settlements of its actions, its usage queries. -/
def AuditCall.isOwn (uses : String → Bool) (clientId : String) : AuditCall → Bool
  | record e => e.clientId = clientId
  | settle actionId .. => uses actionId
  | used c _ => c = clientId

def own (clientId : String) (calls : List AuditCall) : List AuditCall :=
  calls.filter (AuditCall.isOwn (usedBy calls clientId) clientId)

def Chronological (calls : List AuditCall) : Prop :=
  (calls.filterMap AuditCall.time?).Pairwise (· ≤ ·)

instance (calls : List AuditCall) : Decidable (Chronological calls) :=
  inferInstanceAs (Decidable (List.Pairwise _ _))

/-- No action id is used by two clients. -/
def OneClient (calls : List AuditCall) : Prop :=
  ∀ a c c', usedBy calls c a → usedBy calls c' a → c = c'

def byClient (clientId : String) (events : List Tier3Event) : List Tier3Event :=
  events.filter fun e => e.clientId = clientId

section
variable {cfg : Tier3Config} {calls : List AuditCall} {c : String}

theorem replay_concat (call : AuditCall) :
    replay cfg (calls ++ [call]) = AuditCall.apply cfg (replay cfg calls) call := by
  simp [replay]

theorem history_concat (call : AuditCall) :
    history (calls ++ [call]) = AuditCall.applyFull (history calls) call := by
  simp [history]

theorem usedBy_concat (call : AuditCall) (c a : String) :
    usedBy (calls ++ [call]) c a = (usedBy calls c a || usedBy [call] c a) := by
  simp [usedBy]

theorem OneClient.of_concat {call : AuditCall} (h : OneClient (calls ++ [call])) : OneClient calls :=
  fun a c c' hc hc' => h a c c' (by simp [usedBy_concat, hc]) (by simp [usedBy_concat, hc'])

theorem Chronological.of_concat {call : AuditCall} (h : Chronological (calls ++ [call])) :
    Chronological calls := by
  rw [Chronological, List.filterMap_append] at h
  exact (List.pairwise_append.1 h).1

theorem mem_settleTier3Event {events : List Tier3Event} {actionId : String} {outcome : Outcome}
    {reason : String} {orderNumber : Option String} {e : Tier3Event}
    (h : e ∈ settleTier3Event events actionId outcome reason orderNumber) :
    ∃ e' ∈ events, e'.clientId = e.clientId ∧ e'.actionId = e.actionId ∧ e'.atTime = e.atTime := by
  rcases mem_modifyNewest h with h | ⟨e', he', -, rfl⟩
  · exact ⟨e, h, rfl, rfl, rfl⟩
  · exact ⟨e', he', rfl, rfl, rfl⟩

theorem mem_recordTier3Event {events : List Tier3Event} {e e' : Tier3Event}
    (h : e' ∈ recordTier3Event cfg events e) : e' ∈ events ∨ e' = e := by
  have h := List.mem_of_mem_filter ((capPerKey_sublist _).subset h)
  simpa using h

/-- An event with an action id was recorded by its client under that id. -/
theorem usedBy_of_mem_replay {e : Tier3Event} {a : String} (h : e ∈ replay cfg calls)
    (ha : e.actionId = some a) : usedBy calls e.clientId a := by
  induction calls using List.reverseRecOn generalizing e with
  | nil => cases h
  | append_singleton calls call ih =>
    rw [replay_concat] at h
    rw [usedBy_concat, Bool.or_eq_true]
    cases call with
    | record e₀ =>
      rcases mem_recordTier3Event h with h | rfl
      · exact .inl (ih h ha)
      · exact .inr (by simp [usedBy, ha])
    | settle =>
      obtain ⟨e', he', hc, hid, -⟩ := mem_settleTier3Event h
      exact .inl (hc ▸ ih he' (hid.trans ha))
    | used => exact .inl (ih h ha)

theorem usedBy_of_mem_history {e : Tier3Event} {a : String} (h : e ∈ history calls)
    (ha : e.actionId = some a) : usedBy calls e.clientId a := by
  induction calls using List.reverseRecOn generalizing e with
  | nil => cases h
  | append_singleton calls call ih =>
    rw [history_concat] at h
    rw [usedBy_concat, Bool.or_eq_true]
    cases call with
    | record e₀ =>
      rcases List.mem_append.1 h with h | h
      · exact .inl (ih h ha)
      · obtain rfl := List.mem_singleton.1 h
        exact .inr (by simp [usedBy, ha])
    | settle =>
      obtain ⟨e', he', hc, hid, -⟩ := mem_settleTier3Event h
      exact .inl (hc ▸ ih he' (hid.trans ha))
    | used => exact .inl (ih h ha)

theorem time_of_mem_history {e : Tier3Event} (h : e ∈ history calls) :
    e.atTime ∈ calls.filterMap AuditCall.time? := by
  induction calls using List.reverseRecOn generalizing e with
  | nil => cases h
  | append_singleton calls call ih =>
    rw [history_concat] at h
    rw [List.filterMap_append, List.mem_append]
    cases call with
    | record e₀ =>
      rcases List.mem_append.1 h with h | h
      · exact .inl (ih h)
      · obtain rfl := List.mem_singleton.1 h
        exact .inr (by simp [AuditCall.time?])
    | settle =>
      obtain ⟨e', he', -, -, ht⟩ := mem_settleTier3Event h
      exact .inl (ht ▸ ih he')
    | used => exact .inl (ih h)

theorem Chronological.le {call : AuditCall} {t x : ℤ} (h : Chronological (calls ++ [call]))
    (ht : call.time? = some t) (hx : x ∈ calls.filterMap AuditCall.time?) : x ≤ t := by
  rw [Chronological, List.filterMap_append] at h
  exact (List.pairwise_append.1 h).2.2 x hx t (by simp [ht])

theorem sorted_history (h : Chronological calls) : Sorted Tier3Event.atTime (history calls) := by
  induction calls using List.reverseRecOn with
  | nil => exact List.Pairwise.nil
  | append_singleton calls call ih =>
    have ih := ih h.of_concat
    rw [history_concat]
    cases call with
    | record e =>
      refine List.pairwise_append.2 ⟨ih, List.pairwise_singleton .., fun x hx y hy => ?_⟩
      obtain rfl := List.mem_singleton.1 hy
      exact h.le rfl (time_of_mem_history hx)
    | settle a o r n =>
      have hmap := map_modifyNewest (p := fun e => e.actionId = some a) (f := Tier3Event.settle o r n)
        (g := Tier3Event.atTime) (fun _ => rfl) (history calls)
      unfold Sorted at ih ⊢
      rw [← List.pairwise_map] at ih ⊢
      exact hmap ▸ ih
    | used => exact ih

/-! ### What is left of one client's events -/

theorem byClient_recordTier3Event (events : List Tier3Event) (e : Tier3Event) :
    byClient c (recordTier3Event cfg events e) =
      ((byClient c (events ++ [e])).filter fun x => e.atTime - cfg.windowSeconds ≤ x.atTime).rtake
        cfg.auditMax := by
  rw [byClient, recordTier3Event, capPerClient, filter_capPerKey, pruneByAge, List.filter_filter,
    byClient, List.filter_filter]
  simp only [Bool.and_comm]

theorem byClient_settle_of_not {events : List Tier3Event} {actionId : String}
    (h : ∀ e ∈ events, e.actionId = some actionId → e.clientId ≠ c) (o : Outcome) (r : String)
    (n : Option String) : byClient c (settleTier3Event events actionId o r n) = byClient c events :=
  filter_modifyNewest_of_not (fun e he hp => by simpa using h e he (by simpa using hp)) fun _ => rfl

theorem byClient_settle_of_own {events : List Tier3Event} {actionId : String}
    (h : ∀ e ∈ events, e.actionId = some actionId → e.clientId = c) (o : Outcome) (r : String)
    (n : Option String) :
    byClient c (settleTier3Event events actionId o r n) =
      settleTier3Event (byClient c events) actionId o r n :=
  filter_modifyNewest_of_imp (fun e he hp => by simpa using h e he (by simpa using hp)) fun _ => rfl

theorem length_byClient_replay : (byClient c (replay cfg calls)).length ≤ cfg.auditMax := by
  induction calls using List.reverseRecOn with
  | nil => exact Nat.zero_le _
  | append_singleton calls call ih =>
    rw [replay_concat]
    cases call with
    | record e =>
      rw [AuditCall.apply, byClient_recordTier3Event, List.rtake, List.length_drop]; omega
    | settle a o r n =>
      refine le_trans (le_of_eq ?_) ih
      have hmap := map_modifyNewest (p := fun e => e.actionId = some a) (f := Tier3Event.settle o r n)
        (g := Tier3Event.clientId) (fun _ => rfl) (replay cfg calls)
      have hlen : ∀ l : List Tier3Event, (byClient c l).length =
          ((l.map Tier3Event.clientId).filter fun x => x = c).length := fun l => by
        rw [List.filter_map, List.length_map]; rfl
      rw [hlen, hlen]
      exact congrArg (fun l => (List.filter _ l).length) hmap
    | used => exact ih

/-- What is left of a client's events at any time after the calls. -/
theorem tail_replay (cfg : Tier3Config) (c : String) (hch : Chronological calls) (hone : OneClient calls) {now : ℤ}
    (hnow : ∀ x ∈ calls.filterMap AuditCall.time?, x ≤ now) :
    Tail Tier3Event.atTime cfg.auditMax (now - cfg.windowSeconds) (byClient c (history calls))
      (byClient c (replay cfg calls)) := by
  induction calls using List.reverseRecOn generalizing now with
  | nil => exact Tail.nil
  | append_singleton calls call ih =>
    have ih := @ih hch.of_concat hone.of_concat
    have hnow' : ∀ x ∈ calls.filterMap AuditCall.time?, x ≤ now := fun x hx => hnow x (by simp [hx])
    rw [replay_concat, history_concat]
    cases call with
    | record e =>
      have he : e.atTime ≤ now := hnow _ (by simp [AuditCall.time?])
      have htail := ih fun x hx => hch.le rfl hx
      have hadd : Tail Tier3Event.atTime cfg.auditMax (e.atTime - cfg.windowSeconds)
          (byClient c (history calls ++ [e])) (byClient c (replay cfg calls ++ [e])) := by
        by_cases hc : e.clientId = c
        · simpa [byClient, hc] using htail.append e
        · simpa [byClient, hc] using htail
      have hsort : Sorted Tier3Event.atTime (byClient c (history calls ++ [e])) :=
        List.Pairwise.filter _ (by
          have h := sorted_history hch
          rwa [history_concat] at h)
      rw [AuditCall.apply, byClient_recordTier3Event]
      exact ((hadd.prune hsort).cap).mono (by omega)
    | settle a o r n =>
      have htail := ih hnow'
      rw [AuditCall.apply, AuditCall.applyFull]
      by_cases hc : usedBy calls c a
      · rw [byClient_settle_of_own fun e he ha =>
            hone.of_concat a _ _ (usedBy_of_mem_history he ha) hc,
          byClient_settle_of_own fun e he ha => hone.of_concat a _ _ (usedBy_of_mem_replay he ha) hc]
        exact htail.modify fun _ => rfl
      · rw [byClient_settle_of_not fun e he ha hec => by
            subst hec; exact hc (usedBy_of_mem_history he ha),
          byClient_settle_of_not fun e he ha hec => by
            subst hec; exact hc (usedBy_of_mem_replay he ha)]
        exact htail
    | used => exact ih hnow'

theorem history_own (hone : OneClient calls) : history (own c calls) = byClient c (history calls) := by
  have key : ∀ (uses : String → Bool), ∀ calls : List AuditCall,
      (∀ a c', usedBy calls c' a → (uses a ↔ c' = c)) →
      history (calls.filter (AuditCall.isOwn uses c)) = byClient c (history calls) := by
    intro uses calls
    induction calls using List.reverseRecOn with
    | nil => intro _; rfl
    | append_singleton calls call ih =>
      intro huses
      have huses' : ∀ a c', usedBy calls c' a → (uses a ↔ c' = c) := fun a c' h =>
        huses a c' (by simp [usedBy_concat, h])
      have ih := ih huses'
      rw [List.filter_append, List.filter_singleton, history_concat]
      cases call with
      | record e =>
        by_cases hc : e.clientId = c <;>
          simp [AuditCall.isOwn, hc, ih, history_concat, AuditCall.applyFull, byClient]
      | settle a o r n =>
        cases hu : uses a with
        | true =>
          simp only [AuditCall.isOwn, hu, cond_true, history_concat, ih, AuditCall.applyFull]
          exact (byClient_settle_of_own (fun e he ha =>
            (huses' a _ (usedBy_of_mem_history he ha)).1 hu) o r n).symm
        | false =>
          simp only [AuditCall.isOwn, hu, cond_false, List.append_nil, ih, AuditCall.applyFull]
          refine (byClient_settle_of_not (fun e he ha hec => ?_) o r n).symm
          rw [(huses' a _ (usedBy_of_mem_history he ha)).2 hec] at hu; cases hu
      | used c' now =>
        by_cases hc : c' = c <;>
          simp [AuditCall.isOwn, hc, ih, history_concat, AuditCall.applyFull]
  refine key _ calls fun a c' hc' => ⟨fun h => hone a _ _ hc' h, ?_⟩
  rintro rfl; exact hc'

theorem tier3UsedCents_byClient (events : List Tier3Event) (now : ℤ) :
    tier3UsedCents cfg events c now = tier3UsedCents cfg (byClient c events) c now := by
  rw [tier3UsedCents, tier3UsedCents, byClient, List.filter_filter]
  congr 2
  refine List.filter_congr fun e _ => ?_
  by_cases h : e.clientId = c <;> simp [counts, h]

theorem cut_le_of_counts {now : ℤ} {e : Tier3Event} (h : counts cfg c now e) :
    now - cfg.windowSeconds ≤ e.atTime := by
  simp only [counts, decide_eq_true_eq] at h; exact h.2.2

/-- A client's usage is what its own last `tier3_audit_max` events say. -/
theorem tier3UsedCents_replay (hch : Chronological calls) (hone : OneClient calls) {now : ℤ}
    (hnow : ∀ x ∈ calls.filterMap AuditCall.time?, x ≤ now) :
    tier3UsedCents cfg (replay cfg calls) c now =
      tier3UsedCents cfg ((history (own c calls)).rtake cfg.auditMax) c now := by
  have htail := tail_replay cfg c hch hone hnow
  rw [tier3UsedCents_byClient, history_own hone, tier3UsedCents, tier3UsedCents,
    htail.filter_eq length_byClient_replay fun e he => cut_le_of_counts he]

theorem tier3UsedCents_replay_of_uncrowded (hch : Chronological calls) (hone : OneClient calls)
    {now : ℤ} (hnow : ∀ x ∈ calls.filterMap AuditCall.time?, x ≤ now)
    (hn : ((byClient c (history calls)).filter fun e =>
      now - cfg.windowSeconds ≤ e.atTime).length ≤ cfg.auditMax) :
    tier3UsedCents cfg (replay cfg calls) c now = tier3UsedCents cfg (history calls) c now := by
  have htail := tail_replay cfg c hch hone hnow
  have hsort : Sorted Tier3Event.atTime (byClient c (history calls)) :=
    List.Pairwise.filter _ (sorted_history hch)
  rw [tier3UsedCents_byClient, tier3UsedCents_byClient (history calls), tier3UsedCents, tier3UsedCents,
    htail.filter_eq_of_uncrowded hsort hn fun e he => cut_le_of_counts he]

end

/-- No cross-tenant effect: two histories that agree on a client's own calls give it the same usage,
namely the accepted amounts in the window among the last `tier3_audit_max` events it recorded. -/
theorem tier3UsedCents_noninterference (cfg : Tier3Config) (c : String) (calls calls' : List AuditCall)
    (hch : Chronological calls) (hch' : Chronological calls') (hone : OneClient calls)
    (hone' : OneClient calls') (hown : own c calls = own c calls') (now : ℤ)
    (hnow : ∀ x ∈ calls.filterMap AuditCall.time?, x ≤ now)
    (hnow' : ∀ x ∈ calls'.filterMap AuditCall.time?, x ≤ now) :
    tier3UsedCents cfg (replay cfg calls) c now = tier3UsedCents cfg (replay cfg calls') c now ∧
    tier3UsedCents cfg (replay cfg calls) c now =
      ((((history (own c calls)).rtake cfg.auditMax).filter fun e =>
        e.outcome = .accepted ∧ now - cfg.windowSeconds ≤ e.atTime).map Tier3Event.amountCents).sum := by
  refine ⟨?_, ?_⟩
  · rw [tier3UsedCents_replay hch hone hnow, tier3UsedCents_replay hch' hone' hnow', hown]
  · rw [tier3UsedCents_replay hch hone hnow, tier3UsedCents]
    congr 2
    refine List.filter_congr fun e he => ?_
    have hmem : e ∈ byClient c (history calls) := history_own hone ▸ List.mem_of_mem_drop he
    have hc : e.clientId = c := by simpa using (List.mem_filter.1 hmem).2
    simp [counts, hc]

/-- Two clients, and the first one alone. -/
theorem tier3UsedCents_noninterference_pair :
    let e : Tier3Event := ⟨10, "partner-a", "chair", 300, .accepted, "", none, some "act-1"⟩
    let e' : Tier3Event := ⟨20, "partner-b", "desk", 500, .accepted, "", none, some "act-2"⟩
    let cfg : Tier3Config := ⟨100, 1, 100, 10, 100, 500⟩
    tier3UsedCents cfg (replay cfg [.record e, .record e']) "partner-a" 30 =
      tier3UsedCents cfg (replay cfg [.record e]) "partner-a" 30 := by
  intro e e' cfg
  refine (tier3UsedCents_noninterference cfg "partner-a" [.record e, .record e'] [.record e]
    (by decide) (by decide) (fun a c c' h h' => ?_) (fun a c c' h h' => ?_) (by decide) 30 (by decide)
    (by decide)).1 <;>
  simp only [usedBy, List.any_cons, List.any_nil, Bool.or_false, Bool.or_eq_true, decide_eq_true_eq, e,
    e', Option.some.injEq] at h h'
  · rcases h with ⟨rfl, rfl⟩ | ⟨rfl, rfl⟩ <;> rcases h' with ⟨rfl, ha⟩ | ⟨rfl, ha⟩ <;>
      first | rfl | (exfalso; revert ha; decide)
  · exact h.1.symm.trans h'.1

end Embassy
