import Embassy.Tier3Invariant
import Embassy.Tier3Ledger

/-!
# What an audit event costs its own client

Spending and audit share one capped list. An event that reserves nothing still takes a place in its
client's part of it; past `tier3_audit_max` the oldest rows of that part make room (`evicted`). So
usage falls by what those rows counted, and by nothing else (`costsEvicted_of_reaches`): a client with
fewer rows in the window, and every other client, keeps its usage.
-/

namespace Embassy
open Lib

section
variable (cfg : Tier3Config)

/-- What the age prune at `now` keeps of one client's rows. -/
def recentRows (c : String) (now : ℤ) (events : List Tier3Event) : List Tier3Event :=
  (byClient c events).filter fun r => now - cfg.windowSeconds ≤ r.atTime

/-- The rows the per-client cap drops when `e` is recorded: the oldest of its client's recent ones. -/
def evicted (events : List Tier3Event) (e : Tier3Event) : List Tier3Event :=
  (recentRows cfg e.clientId e.atTime (events ++ [e])).rdrop cfg.auditMax

/-- No event that reserves nothing lowers anyone's usage. -/
def NeverRefills (trace : List Call) : Prop :=
  ∀ before e after, trace = before ++ .recorded e :: after → ∀ c t, e.atTime ≤ t →
    tier3UsedCents cfg (storeAfter cfg before).tier3Events c t ≤
      tier3UsedCents cfg (storeAfter cfg (before ++ [.recorded e])).tier3Events c t

/-- Such an event, recorded after the calls `before`, costs its client what the evicted rows counted. -/
structure CostsEvicted (before : List Call) (e : Tier3Event) : Prop where
  reserves_nothing : e.outcome ≠ .accepted
  used_eq : ∀ c t, e.atTime ≤ t →
    tier3UsedCents cfg (storeAfter cfg before).tier3Events c t =
      tier3UsedCents cfg (storeAfter cfg (before ++ [.recorded e])).tier3Events c t +
        tier3UsedCents cfg (evicted cfg (storeAfter cfg before).tier3Events e) c t
  /-- While the client has fewer than `tier3_audit_max` rows in the window, nothing is evicted. -/
  evicted_eq_nil :
    (recentRows cfg e.clientId e.atTime (storeAfter cfg before).tier3Events).length < cfg.auditMax →
      evicted cfg (storeAfter cfg before).tier3Events e = []
  own : ∀ c t, c ≠ e.clientId →
    tier3UsedCents cfg (evicted cfg (storeAfter cfg before).tier3Events e) c t = 0

end

section
variable {cfg : Tier3Config} {events : List Tier3Event} {e : Tier3Event} {c : String} {now t : ℤ}

theorem tier3UsedCents_append (l₁ l₂ : List Tier3Event) :
    tier3UsedCents cfg (l₁ ++ l₂) c t = tier3UsedCents cfg l₁ c t + tier3UsedCents cfg l₂ c t := by
  unfold tier3UsedCents
  rw [List.filter_append, List.map_append, List.sum_append]

theorem tier3UsedCents_eq_zero (h : ∀ r ∈ events, counts cfg c t r = false) :
    tier3UsedCents cfg events c t = 0 := by
  unfold tier3UsedCents
  rw [List.filter_eq_nil_iff.2 fun r hr => by rw [h r hr]; decide]
  rfl

theorem tier3UsedCents_recentRows (h : now ≤ t) :
    tier3UsedCents cfg (recentRows cfg c now events) c t = tier3UsedCents cfg events c t := by
  rw [tier3UsedCents_byClient events, tier3UsedCents, tier3UsedCents, recentRows, List.filter_filter]
  congr 2
  refine List.filter_congr fun r _ => ?_
  cases hr : counts cfg c t r with
  | false => rfl
  | true =>
    have hcut := cut_le_of_counts hr
    simp only [Bool.true_and, decide_eq_true_eq]
    omega

theorem counts_eq_false_of_outcome (h : e.outcome ≠ .accepted) : counts cfg c t e = false := by
  simp [counts, h]

theorem clientId_of_mem_recentRows {r : Tier3Event} (h : r ∈ recentRows cfg c now events) :
    r.clientId = c := by
  have hown := List.mem_of_mem_filter h
  simpa using (List.mem_filter.1 hown).2

theorem counts_evicted_of_ne (hc : c ≠ e.clientId) :
    ∀ r ∈ evicted cfg events e, counts cfg c t r = false := by
  intro r hr
  have hown := clientId_of_mem_recentRows (List.mem_of_mem_take hr)
  simp [counts, hown, hc.symm]

theorem length_recentRows_append :
    (recentRows cfg e.clientId e.atTime (events ++ [e])).length ≤
      (recentRows cfg e.clientId e.atTime events).length + 1 := by
  unfold recentRows byClient
  rw [List.filter_append, List.filter_append, List.length_append]
  have hone := ((List.filter_sublist (p := fun r => decide (e.atTime - cfg.windowSeconds ≤ r.atTime))).trans
    (List.filter_sublist (l := [e]) (p := fun r => decide (r.clientId = e.clientId)))).length_le
  simp only [List.length_singleton] at hone
  omega

theorem evicted_eq_nil (h : (recentRows cfg e.clientId e.atTime events).length < cfg.auditMax) :
    evicted cfg events e = [] := by
  have hlen : (recentRows cfg e.clientId e.atTime (events ++ [e])).length ≤
      (recentRows cfg e.clientId e.atTime events).length + 1 := length_recentRows_append
  unfold evicted List.rdrop
  rw [show (recentRows cfg e.clientId e.atTime (events ++ [e])).length - cfg.auditMax = 0 by omega,
    List.take_zero]

/-- Nobody else reaches the cap through an event of `e`'s client. -/
theorem rdrop_recentRows_of_ne (hlen : (byClient c events).length ≤ cfg.auditMax)
    (hc : c ≠ e.clientId) : (recentRows cfg c e.atTime (events ++ [e])).rdrop cfg.auditMax = [] := by
  have hown : byClient c (events ++ [e]) = byClient c events := by simp [byClient, hc.symm]
  have hrows : (recentRows cfg c e.atTime (events ++ [e])).length ≤ cfg.auditMax := by
    unfold recentRows
    rw [hown]
    exact (List.length_filter_le ..).trans hlen
  unfold List.rdrop
  rw [Nat.sub_eq_zero_of_le hrows, List.take_zero]

/-- The cap is the only thing about an event without a reservation that lowers usage. -/
theorem tier3UsedCents_recordTier3Event (hlen : (byClient c events).length ≤ cfg.auditMax)
    (hout : e.outcome ≠ .accepted) (ht : e.atTime ≤ t) :
    tier3UsedCents cfg events c t =
      tier3UsedCents cfg (recordTier3Event cfg events e) c t +
        tier3UsedCents cfg (evicted cfg events e) c t := by
  have hnew : tier3UsedCents cfg [e] c t = 0 := tier3UsedCents_eq_zero fun r hr => by
    obtain rfl := List.mem_singleton.1 hr
    exact counts_eq_false_of_outcome hout
  have hadd : tier3UsedCents cfg (events ++ [e]) c t = tier3UsedCents cfg events c t := by
    rw [tier3UsedCents_append, hnew, Nat.add_zero]
  have hkept : tier3UsedCents cfg (recordTier3Event cfg events e) c t =
      tier3UsedCents cfg ((recentRows cfg c e.atTime (events ++ [e])).rtake cfg.auditMax) c t := by
    rw [tier3UsedCents_byClient, byClient_recordTier3Event]
    rfl
  have hevicted : tier3UsedCents cfg (evicted cfg events e) c t =
      tier3UsedCents cfg ((recentRows cfg c e.atTime (events ++ [e])).rdrop cfg.auditMax) c t := by
    by_cases hc : c = e.clientId
    · rw [hc]; rfl
    · rw [rdrop_recentRows_of_ne hlen hc, tier3UsedCents_eq_zero (counts_evicted_of_ne hc)]
      rfl
  calc tier3UsedCents cfg events c t
      = tier3UsedCents cfg (recentRows cfg c e.atTime (events ++ [e])) c t := by
        rw [tier3UsedCents_recentRows ht, hadd]
    _ = tier3UsedCents cfg ((recentRows cfg c e.atTime (events ++ [e])).rdrop cfg.auditMax ++
          (recentRows cfg c e.atTime (events ++ [e])).rtake cfg.auditMax) c t := by
        rw [List.rdrop, List.rtake, List.take_append_drop]
    _ = _ := by rw [tier3UsedCents_append, hkept, hevicted, Nat.add_comm]

theorem Lawful.outcome_of_recorded {trace : List Call} (h : Lawful trace) (he : .recorded e ∈ trace) :
    e.outcome ≠ .accepted := by
  intro hacc
  obtain ⟨b, hb⟩ := (h.accepted_iff he rfl).1 hacc
  cases hb

theorem costsEvicted {before : List Call} (hout : e.outcome ≠ .accepted) :
    CostsEvicted cfg before e where
  reserves_nothing := hout
  used_eq c t ht := by
    have hlen : (byClient c (storeAfter cfg before).tier3Events).length ≤ cfg.auditMax := by
      rw [tier3Events_storeAfter]
      exact length_byClient_replay
    rw [storeAfter_concat]
    exact tier3UsedCents_recordTier3Event hlen hout ht
  evicted_eq_nil := evicted_eq_nil
  own _ _ hc := tier3UsedCents_eq_zero (counts_evicted_of_ne hc)

end

/-- In every run, each event that reserves nothing lowers its own client's usage by exactly what the
rows that make room for it counted. -/
theorem costsEvicted_of_reaches (env : Env) (w : World) (h : Reaches (step env) anyAct .init w)
    (before after : List Call) (e : Tier3Event) (htrace : w.trace = before ++ .recorded e :: after) :
    CostsEvicted env.toTier3Config before e :=
  costsEvicted ((good_of_reaches h).inv.lawful.outcome_of_recorded (by rw [htrace]; simp))

/-- An executed order, and one over the rest of the mandate, which is queued. -/
def queuedOnTopActs : List Act :=
  [.putGrant "partner-a" 500] ++ arrive 0 "partner-a" "act-1" (chair 300 chair_range) ++
    [.reserve 0, .handOff 0, .settle 0 (.ok (.executed "erp" "rules" "ERP-1")), .resolve 0] ++
    arrive 1 "partner-a" "act-2" (chair 300 chair_range) ++ [.reserve 1]

/-- With room for one row for each client. -/
def oneRowEnv : Env := .ticking ⟨100, 1, 100, 10, 100, 50⟩

/-- The call at position `k` reserves nothing and lowers the usage of `c`. -/
def refillsAt (cfg : Tier3Config) (c : String) (k : ℕ) (calls : List Call) : Bool :=
  match calls[k]? with
  | some (.recorded e) =>
    tier3UsedCents cfg (storeAfter cfg (calls.take k ++ [.recorded e])).tier3Events c e.atTime <
      tier3UsedCents cfg (storeAfter cfg (calls.take k)).tier3Events c e.atTime
  | _ => false

theorem exists_refill_of_refillsAt {cfg : Tier3Config} {c : String} {k : ℕ} {calls : List Call}
    (h : refillsAt cfg c k calls = true) : ∃ before e after, calls = before ++ .recorded e :: after ∧
      tier3UsedCents cfg (storeAfter cfg (before ++ [.recorded e])).tier3Events c e.atTime <
        tier3UsedCents cfg (storeAfter cfg before).tier3Events c e.atTime := by
  unfold refillsAt at h
  split at h
  · rename_i e hget
    obtain ⟨hlt, heq⟩ := List.getElem?_eq_some_iff.1 hget
    refine ⟨calls.take k, e, calls.drop (k + 1), ?_, of_decide_eq_true h⟩
    rw [← heq, List.cons_getElem_drop_succ, List.take_append_drop]
  · cases h

/-- The queued order's event pushes the executed order's row out, and its 300 cents. -/
theorem exists_refill : ∃ w, Reaches (step oneRowEnv) anyAct .init w ∧
    ∃ before e after, w.trace = before ++ .recorded e :: after ∧
      tier3UsedCents oneRowEnv.toTier3Config
        (storeAfter oneRowEnv.toTier3Config (before ++ [.recorded e])).tier3Events "partner-a" e.atTime <
      tier3UsedCents oneRowEnv.toTier3Config
        (storeAfter oneRowEnv.toTier3Config before).tier3Events "partner-a" e.atTime := by
  obtain ⟨w, hw, hp⟩ := exists_reaches_of_run (step oneRowEnv) anyAct .init queuedOnTopActs
    (fun w => refillsAt oneRowEnv.toTier3Config "partner-a" 8 w.trace) (fun _ _ _ => trivial) (by decide)
  exact ⟨w, hw, exists_refill_of_refillsAt hp⟩

theorem costsEvicted_of_reaches_oneRow : ∃ before e, CostsEvicted oneRowEnv.toTier3Config before e ∧
    0 < tier3UsedCents oneRowEnv.toTier3Config (evicted oneRowEnv.toTier3Config
      (storeAfter oneRowEnv.toTier3Config before).tier3Events e) "partner-a" e.atTime := by
  obtain ⟨w, hw, before, e, after, htrace, hlt⟩ := exists_refill
  have hcosts := costsEvicted_of_reaches oneRowEnv w hw before after e htrace
  have hused := hcosts.used_eq "partner-a" e.atTime le_rfl
  exact ⟨before, e, hcosts, by omega⟩

theorem not_neverRefills : ¬ ∀ (env : Env) (w : World), Reaches (step env) anyAct .init w →
    NeverRefills env.toTier3Config w.trace := by
  intro hall
  obtain ⟨w, hw, before, e, after, htrace, hlt⟩ := exists_refill
  exact absurd (hall oneRowEnv w hw before e after htrace "partner-a" e.atTime le_rfl) (not_le.2 hlt)

end Embassy
