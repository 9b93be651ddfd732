import Embassy.LawfulStore

/-!
# The abstract ledger

What the audit trail is for: `ledger` lists every reservation once, with its handoff's fate, and
never forgets one. A reservation is live unless its handoff failed. On a lawful trace the accepted
events ever recorded, with their settlements, are the live reservations (`accepted_eq_live`), and a
settlement rewrites the reservation's event (`settles_reservation`); with `AuditTrail` this makes
`tier3_used_cents` the live spend in the window.
-/

namespace Embassy
open Lib

/-- Budget reserved for one action; no fate while its handoff is in flight. -/
structure Reservation where
  event : Tier3Event
  approvedByHuman : Bool
  fate : Option HandoffResult
  deriving DecidableEq, Repr

/-- The action may have been executed. -/
def HandoffResult.consumes : HandoffResult → Bool
  | executed .. | unknown => true
  | failed .. | down => false

namespace Reservation

/-- In flight, executed, or nobody knows. -/
def live (r : Reservation) : Bool := r.fate.all HandoffResult.consumes

/-- The handoff of `a` ended. -/
def settle (a : String) (result : HandoffResult) (r : Reservation) : Reservation :=
  if r.event.actionId = some a then { r with fate := r.fate <|> some result } else r

end Reservation

def book (l : List Reservation) : Call → List Reservation
  | .reserved approvedByHuman e => l ++ [⟨e, approvedByHuman, none⟩]
  | .settled a _ result => l.map (Reservation.settle a result)
  | _ => l

def ledger (trace : List Call) : List Reservation := trace.foldl book []

section Cents
variable (cfg : Tier3Config) (c : String) (t : ℤ)

/-- The reservation counts against `c` at time `t`. -/
def Reservation.spends (r : Reservation) : Bool :=
  r.event.clientId = c ∧ r.live ∧ t - cfg.windowSeconds ≤ r.event.atTime

/-- The live spend of `c` in the window. -/
def spentCents (l : List Reservation) : ℕ :=
  ((l.filter (Reservation.spends cfg c t)).map fun r => r.event.amountCents).sum

/-- The part of it that was within the mandate. -/
def mandateCents (l : List Reservation) : ℕ := spentCents cfg c t (l.filter fun r => !r.approvedByHuman)

/-- `c` never recorded more than `tier3_audit_max` events within one window. -/
def Uncrowded (trace : List Call) : Prop :=
  ∀ x : ℤ, ((trace.filterMap Call.event?).filter fun e =>
    e.clientId = c ∧ x - cfg.windowSeconds ≤ e.atTime ∧ e.atTime ≤ x).length ≤ cfg.auditMax

end Cents

/-! ### Events as recorded -/

section
variable {cfg : Tier3Config} {trace cs : List Call} {call : Call} {a c : String} {o : Order}
  {ph : ActionPhase}

theorem ledger_concat : ledger (trace ++ [call]) = book (ledger trace) call := by simp [ledger]

theorem history_event {e : Tier3Event} (h : call.event? = some e) :
    history (auditCalls (trace ++ [call])) = history (auditCalls trace) ++ [e] := by
  have haudit : call.audit? = some (.record e) := by cases call <;> cases h <;> rfl
  rw [auditCalls_concat, haudit, Option.toList_some, history_concat]
  rfl

theorem history_settled {b : Bool} {result : HandoffResult} :
    history (auditCalls (trace ++ [.settled a b result])) =
      settleTier3Event (history (auditCalls trace)) a (settlement b result).outcome
        (settlement b result).reason (settlement b result).orderNumber := by
  rw [auditCalls_concat, Call.audit?, Option.toList_some, history_concat]
  rfl

theorem history_other (h : call.audit? = none) :
    history (auditCalls (trace ++ [call])) = history (auditCalls trace) := by
  rw [auditCalls_concat, h, Option.toList_none, List.append_nil]

theorem Call.audit_cases (call : Call) : (∃ e, call.event? = some e) ∨
    (∃ a b result, call = .settled a b result) ∨ call.event? = none ∧ call.audit? = none := by
  cases call with
  | recorded e | reserved b e => exact .inl ⟨e, rfl⟩
  | settled a b result => exact .inr (.inl ⟨a, b, result, rfl⟩)
  | _ => exact .inr (.inr ⟨rfl, rfl⟩)

theorem Call.about_of_event {e : Tier3Event} (h : call.event? = some e) : call.about = e.actionId := by
  cases call <;> cases h <;> rfl

theorem Call.time_of_event {e : Tier3Event} (h : call.event? = some e) : call.time? = some e.atTime := by
  cases call <;> cases h <;> rfl

theorem map_settleTier3Event {β : Type*} {g : Tier3Event → β}
    (hg : ∀ o r n e, g (Tier3Event.settle o r n e) = g e) (events : List Tier3Event) (a : String)
    (outcome : Outcome) (reason : String) (orderNumber : Option String) :
    (settleTier3Event events a outcome reason orderNumber).map g = events.map g :=
  map_modifyNewest (hg outcome reason orderNumber) events

theorem map_history (trace : List Call) :
    (history (auditCalls trace)).map (fun e => (e.clientId, e.atTime)) =
      (trace.filterMap Call.event?).map fun e => (e.clientId, e.atTime) := by
  induction trace using List.reverseRecOn with
  | nil => rfl
  | append_singleton trace call ih =>
    rw [List.filterMap_append]
    rcases call.audit_cases with ⟨e, he⟩ | ⟨a, b, result, rfl⟩ | ⟨he, ha⟩
    · simp [history_event he, he, ih]
    · rw [history_settled, map_settleTier3Event fun _ _ _ _ => rfl, ih]
      simp [Call.event?]
    · rw [history_other ha, ih]
      simp [he]

theorem uncrowded_of_append (h : Uncrowded cfg c (trace ++ cs)) : Uncrowded cfg c trace := fun x =>
  le_trans (List.Sublist.length_le (by
    rw [List.filterMap_append, List.filter_append]; exact List.sublist_append_left ..)) (h x)

theorem length_recent_le (h : Uncrowded cfg c trace) {t : ℤ}
    (ht : ∀ x ∈ trace.filterMap Call.time?, x ≤ t) :
    ((byClient c (history (auditCalls trace))).filter fun e =>
      t - cfg.windowSeconds ≤ e.atTime).length ≤ cfg.auditMax := by
  refine le_trans (le_of_eq ?_) (h t)
  -- only the client and the time matter, and those are as recorded
  have hlen : ∀ l : List Tier3Event,
      ((byClient c l).filter fun e => t - cfg.windowSeconds ≤ e.atTime).length =
        ((l.map fun e => (e.clientId, e.atTime)).filter fun x =>
          x.1 = c ∧ t - cfg.windowSeconds ≤ x.2).length := by
    intro l
    rw [byClient, List.filter_filter, List.filter_map, List.length_map]
    congr 1
    refine List.filter_congr fun e _ => ?_
    simp [Bool.and_comm]
  rw [hlen, map_history, ← hlen, byClient, List.filter_filter]
  congr 1
  refine List.filter_congr fun e he => ?_
  obtain ⟨call, hcall, heq⟩ := List.mem_filterMap.1 he
  have hmem := ht _ (List.mem_filterMap.2 ⟨call, hcall, Call.time_of_event heq⟩)
  simp [hmem, Bool.and_comm]

/-- The events of an action stay as recorded until it is settled. -/
theorem filter_history_of_unsettled (h : resultsOf a trace = []) :
    (history (auditCalls trace)).filter (fun e => e.actionId = some a) =
      (callsOf a trace).filterMap Call.event? := by
  induction trace using List.reverseRecOn with
  | nil => rfl
  | append_singleton trace call ih =>
    rw [resultsOf, callsOf_append, List.filterMap_append, List.append_eq_nil_iff] at h
    have ih := ih h.1
    rcases call.audit_cases with ⟨e, he⟩ | ⟨b, byHuman, result, rfl⟩ | ⟨he, ha⟩
    · by_cases hc : call.about = some a
      · rw [callsOf_concat_of_about hc, List.filterMap_append, ← ih, history_event he,
          List.filter_append]
        rw [Call.about_of_event he] at hc
        simp [he, hc]
      · rw [callsOf_concat_of_ne hc, ← ih, history_event he, List.filter_append]
        rw [Call.about_of_event he] at hc
        simp [hc]
    · have hba : b ≠ a := by
        rintro rfl
        simp [callsOf, Call.about, Call.result?] at h
      rw [callsOf_concat_of_ne (by simpa [Call.about] using hba), ← ih, history_settled]
      exact filter_modifyNewest_of_not (fun e _ hp => by
        simp only [decide_eq_true_eq] at hp; simp [hp, hba]) fun _ => rfl
    · rw [history_other ha, ih, callsOf_append, List.filterMap_append]
      have hnil : (callsOf a [call]).filterMap Call.event? = [] := by
        by_cases hc : call.about = some a <;> simp [callsOf, hc, he]
      rw [hnil, List.append_nil]

/-- Who approved the reservation of a phase. -/
def ActionPhase.approvedByHuman? : ActionPhase → Option Bool
  | reserved b | executing b | settled b _ | resolved b _ => some b
  | _ => none

/-- An accepted event about an action is its reservation. -/
theorem reserved_of_accepted (h : lifeOf a trace = some (some (o, ph))) {e : Tier3Event}
    (hc : call ∈ callsOf a trace) (he : call.event? = some e) (hacc : e.outcome = .accepted) :
    ∃ b, call = .reserved b e ∧ ph.approvedByHuman? = some b := by
  refine lifeOf_induct (P := fun cs s => ∀ o ph, s = some (o, ph) → ∀ call ∈ cs, ∀ e,
    call.event? = some e → e.outcome = .accepted → ∃ b, call = .reserved b e ∧
      ph.approvedByHuman? = some b) h (fun _ _ h => by cases h) (fun o _ _ _ _ c hc e he => ?_)
    (fun cs o ph c ph' _ ih hn o' ph'' h d hd e he hacc => ?_) o ph rfl call hc e he hacc
  · obtain rfl := List.mem_singleton.1 hc; cases he
  · obtain ⟨rfl, rfl⟩ : o = o' ∧ ph' = ph'' := by simpa using h
    rcases List.mem_append.1 hd with hd | hd
    · obtain ⟨b, hb, hph⟩ := ih o ph rfl d hd e he hacc
      refine ⟨b, hb, ?_⟩
      cases hn <;> first | exact hph | cases hph
    · obtain rfl := List.mem_singleton.1 hd
      cases hn with
      | reserve | approve => obtain rfl := Option.some.inj he; exact ⟨_, rfl, rfl⟩
      | turnAway hof | audit hof =>
        obtain rfl := Option.some.inj he
        rw [hof.outcome_eq] at hacc; cases hacc
      | @drop exit _ hof =>
        obtain rfl := Option.some.inj he
        rw [hof.outcome_eq] at hacc
        cases exit <;> cases hacc
      | _ => cases he

/-- While an action is in flight, the newest of its events is its reservation, and the only accepted
one. -/
theorem rows_of_executing {b : Bool} (h : lifeOf a trace = some (some (o, .executing b))) :
    ∃ rows e, (history (auditCalls trace)).filter (fun e => e.actionId = some a) = rows ++ [e] ∧
      e.outcome = .accepted ∧ (∀ x ∈ rows, x.outcome ≠ .accepted) ∧ .reserved b e ∈ trace := by
  have hs := summary_of_lifeOf h
  have hres : resultsOf a trace = [] := hs.results
  have hrows := filter_history_of_unsettled hres
  have hout : ((callsOf a trace).filterMap Call.event?).map Tier3Event.outcome =
      ActionPhase.reservedOutcomes b := by
    rw [List.map_filterMap]; exact hs.outcomes
  have hreserved : ∀ e ∈ (callsOf a trace).filterMap Call.event?, e.outcome = .accepted →
      .reserved b e ∈ trace := by
    intro e he hacc
    obtain ⟨call, hcall, hev⟩ := List.mem_filterMap.1 he
    obtain ⟨b', rfl, hb'⟩ := reserved_of_accepted h hcall hev hacc
    obtain rfl := Option.some.inj hb'
    exact List.mem_of_mem_filter hcall
  rw [hrows]
  cases b with
  | false =>
    obtain ⟨e, he, hacc⟩ := List.map_eq_singleton_iff.1 hout
    exact ⟨[], e, by simpa using he, hacc, by simp, hreserved e (by simp [he]) hacc⟩
  | true =>
    obtain ⟨q, l, hq, hqueued, hl⟩ := List.map_eq_cons_iff.1 hout
    obtain ⟨e, rfl, hacc⟩ := List.map_eq_singleton_iff.1 hl
    exact ⟨[q], e, hq, hacc, by simp [hqueued], hreserved e (by simp [hq]) hacc⟩

/-! ### The ledger -/

def Call.reservedEvent? : Call → Option Tier3Event
  | .reserved _ e => some e
  | _ => none

theorem map_event_book (l : List Reservation) (call : Call) :
    (book l call).map Reservation.event =
      l.map Reservation.event ++ call.reservedEvent?.toList := by
  cases call with
  | settled a b result =>
    simp only [book, List.map_map, Call.reservedEvent?, Option.toList_none, List.append_nil]
    refine List.map_congr_left fun r _ => ?_
    simp only [Function.comp, Reservation.settle]
    split <;> rfl
  | _ => simp [book, Call.reservedEvent?]

theorem fate_of_unsettled (h : resultsOf a trace = []) : ∀ r ∈ ledger trace,
    r.event.actionId = some a → r.fate = none := by
  induction trace using List.reverseRecOn with
  | nil => intro r hr; cases hr
  | append_singleton trace call ih =>
    rw [resultsOf, callsOf_append, List.filterMap_append, List.append_eq_nil_iff] at h
    have ih := ih h.1
    intro r hr ha
    rw [ledger_concat] at hr
    cases call with
    | reserved b e =>
      rcases List.mem_append.1 hr with hr | hr
      · exact ih r hr ha
      · obtain rfl := List.mem_singleton.1 hr; rfl
    | settled b byHuman result =>
      have hba : b ≠ a := by
        rintro rfl
        simp [callsOf, Call.about, Call.result?] at h
      obtain ⟨r', hr', rfl⟩ := List.mem_map.1 hr
      unfold Reservation.settle at ha ⊢
      split at ha <;> rename_i hb
      · exact absurd (Option.some.inj (hb.symm.trans ha)) hba
      · rw [if_neg hb]; exact ih r' hr' ha
    | _ => exact ih r hr ha

/-- Whose money an event is about, and when. -/
structure Claim where
  actionId : Option String
  clientId : String
  amountCents : ℕ
  atTime : ℤ

def Tier3Event.claim (e : Tier3Event) : Claim := ⟨e.actionId, e.clientId, e.amountCents, e.atTime⟩

/-- Settling an action that was live and is released takes its entries out of the live ones, and
nothing else changes them. -/
theorem live_settle {l : List Reservation} {a : String} (result : HandoffResult)
    (h : ∀ r ∈ l, r.event.actionId = some a → r.fate = none) :
    ((l.map (Reservation.settle a result)).filter Reservation.live).map (fun r => r.event.claim) =
      if result.consumes then (l.filter Reservation.live).map fun r => r.event.claim
      else ((l.filter Reservation.live).map fun r => r.event.claim).filter fun k =>
        k.actionId ≠ some a := by
  induction l with
  | nil => simp
  | cons r l ih =>
    have ih := ih fun x hx => h x (by simp [hx])
    by_cases ha : r.event.actionId = some a
    · have hfate := h r (by simp) ha
      cases hres : result.consumes <;>
        simp_all [Reservation.settle, Reservation.live, Tier3Event.claim]
    · cases hres : result.consumes <;> by_cases hlive : r.live <;>
        simp_all [Reservation.settle, Tier3Event.claim]

def acceptedEvents (events : List Tier3Event) : List Tier3Event :=
  events.filter fun e => e.outcome = .accepted

theorem settlement_outcome (b : Bool) (result : HandoffResult) :
    (settlement b result).outcome = if result.consumes then .accepted else .rejected := by
  cases result <;> rfl

theorem settleTier3Event_split {l₁ l₂ : List Tier3Event} {e : Tier3Event} {outcome : Outcome}
    {reason : String} {orderNumber : Option String} (he : e.actionId = some a)
    (h₂ : ∀ x ∈ l₂, x.actionId ≠ some a) :
    settleTier3Event (l₁ ++ e :: l₂) a outcome reason orderNumber =
      l₁ ++ e.settle outcome reason orderNumber :: l₂ := by
  rw [settleTier3Event]
  exact modifyNewest_split (decide_eq_true he) fun x hx => decide_eq_false (h₂ x hx)

theorem accepted_settle {events rows : List Tier3Event} {e : Tier3Event} {b : Bool}
    {result : HandoffResult} (hrows : events.filter (fun e => e.actionId = some a) = rows ++ [e])
    (hacc : e.outcome = .accepted) (hother : ∀ x ∈ rows, x.outcome ≠ .accepted) :
    (acceptedEvents (settleTier3Event events a (settlement b result).outcome (settlement b result).reason
      (settlement b result).orderNumber)).map Tier3Event.claim =
      if result.consumes then (acceptedEvents events).map Tier3Event.claim
      else ((acceptedEvents events).map Tier3Event.claim).filter fun k => k.actionId ≠ some a := by
  obtain ⟨l₁, l₂, rfl, he, hl₁, hl₂⟩ := exists_split_of_filter hrows
  have ha : e.actionId = some a := of_decide_eq_true he
  rw [settleTier3Event_split ha fun x hx => of_decide_eq_false (hl₂ x hx)]
  simp only [acceptedEvents, List.filter_append, List.map_append, List.filter_cons, hacc,
    decide_true, if_true, Tier3Event.settle, settlement_outcome]
  cases hres : result.consumes with
  | true => simp [Tier3Event.claim]
  | false =>
    -- no other accepted event is about the action
    have hkeep₁ : ∀ k ∈ (l₁.filter fun e => e.outcome = .accepted).map Tier3Event.claim,
        k.actionId ≠ some a := by
      intro k hk
      obtain ⟨x, hx, rfl⟩ := List.mem_map.1 hk
      obtain ⟨hx, hxacc⟩ := List.mem_filter.1 hx
      exact fun hxa => hother x (hl₁ ▸ List.mem_filter.2 ⟨hx, decide_eq_true hxa⟩) (of_decide_eq_true hxacc)
    have hkeep₂ : ∀ k ∈ (l₂.filter fun e => e.outcome = .accepted).map Tier3Event.claim,
        k.actionId ≠ some a := by
      intro k hk
      obtain ⟨x, hx, rfl⟩ := List.mem_map.1 hk
      exact of_decide_eq_false (hl₂ x (List.mem_of_mem_filter hx))
    have h₁ := List.filter_eq_self.2 fun k hk => decide_eq_true (hkeep₁ k hk)
    have h₂ := List.filter_eq_self.2 fun k hk => decide_eq_true (hkeep₂ k hk)
    have he' : e.claim.actionId = some a := ha
    simp only [List.map_cons, List.filter_cons, h₁, h₂, he']
    simp

theorem Lawful.accepted_iff (h : Lawful trace) (hc : call ∈ trace) {e : Tier3Event}
    (he : call.event? = some e) : e.outcome = .accepted ↔ ∃ b, call = .reserved b e := by
  cases ha : e.actionId with
  | none =>
    have hidle := h.idle call hc ((Call.about_of_event he).trans ha)
    cases call with
    | recorded e' =>
      obtain rfl := Option.some.inj he
      have hrej : e'.outcome = .rejected := hidle
      simp [hrej]
    | reserved b e' => exact hidle.elim
    | _ => cases he
  | some a =>
    have hmem : call ∈ callsOf a trace :=
      List.mem_filter.2 ⟨hc, decide_eq_true ((Call.about_of_event he).trans ha)⟩
    obtain ⟨s, hs⟩ := h.life a
    match s with
    | none => rw [callsOf_of_unborn hs] at hmem; cases hmem
    | some (o, ph) =>
      constructor
      · intro hacc
        obtain ⟨b, hb, -⟩ := reserved_of_accepted hs hmem he hacc
        exact ⟨b, hb⟩
      · rintro ⟨b, rfl⟩
        obtain ⟨s₁, s₂, hstep⟩ := exists_step_of_mem_run hs hmem
        rcases Stage.next_cases hstep with ⟨_, -, hcontra, -⟩ | ⟨o, ph, ph', rfl, rfl, hn⟩
        · cases hcontra
        · cases hn with
          | reserve hof | approve hof => exact hof.outcome_eq

/-- The accepted events ever recorded are the live reservations. -/
theorem accepted_eq_live (h : Lawful trace) :
    (acceptedEvents (history (auditCalls trace))).map Tier3Event.claim =
      ((ledger trace).filter Reservation.live).map fun r => r.event.claim := by
  induction trace using List.reverseRecOn with
  | nil => rfl
  | append_singleton trace call ih =>
    have ih := ih h.of_append
    rw [ledger_concat]
    rcases call.audit_cases with ⟨e, he⟩ | ⟨a, b, result, rfl⟩ | ⟨he, haudit⟩
    · have hacc := h.accepted_iff (List.mem_append_right _ (List.mem_singleton_self call)) he
      rw [history_event he, acceptedEvents, List.filter_append, List.map_append]
      cases call with
      | recorded e' =>
        obtain rfl := Option.some.inj he
        have hno : e'.outcome ≠ .accepted := fun h => by obtain ⟨b, hb⟩ := hacc.1 h; cases hb
        simpa [hno, book, acceptedEvents] using ih
      | reserved b e' =>
        obtain rfl := Option.some.inj he
        have hyes : e'.outcome = .accepted := hacc.2 ⟨b, rfl⟩
        simp only [book, List.filter_append, List.map_append, List.filter_cons, hyes]
        rw [← ih]; rfl
      | _ => cases he
    · -- the action is in flight
      obtain ⟨s, s', hs, hnext, -⟩ := h.step_of_concat (a := a) rfl
      rcases Stage.next_cases hnext with ⟨_, -, hcontra, -⟩ | ⟨o, ph, ph', rfl, rfl, hn⟩
      · cases hcontra
      · cases hn with
        | settle =>
          obtain ⟨rows, e, hrows, hacc, hother, -⟩ := rows_of_executing hs
          have hfate := fate_of_unsettled (summary_of_lifeOf hs).results
          rw [history_settled, accepted_settle hrows hacc hother, ih]
          exact (live_settle result hfate).symm
    · rw [history_other haudit, ih]
      cases call with
      | recorded | reserved => cases he
      | settled => cases haudit
      | _ => rfl

/-- The cents claimed by `c` in the window. -/
def claimedCents (cfg : Tier3Config) (c : String) (t : ℤ) (claims : List Claim) : ℕ :=
  ((claims.filter fun k => k.clientId = c ∧ t - cfg.windowSeconds ≤ k.atTime).map
    Claim.amountCents).sum

theorem tier3UsedCents_eq_claimed (events : List Tier3Event) (t : ℤ) :
    tier3UsedCents cfg events c t =
      claimedCents cfg c t ((acceptedEvents events).map Tier3Event.claim) := by
  rw [tier3UsedCents, claimedCents, acceptedEvents, List.filter_map, List.map_map, List.filter_filter]
  congr 2
  refine List.filter_congr fun e _ => ?_
  by_cases h : e.outcome = .accepted <;> by_cases hc : e.clientId = c <;>
    simp [counts, Tier3Event.claim, h, hc]

theorem spentCents_eq_claimed (l : List Reservation) (t : ℤ) :
    spentCents cfg c t l =
      claimedCents cfg c t ((l.filter Reservation.live).map fun r => r.event.claim) := by
  rw [spentCents, claimedCents, List.filter_map, List.map_map, List.filter_filter]
  congr 2
  refine List.filter_congr fun r _ => ?_
  by_cases h : r.live <;> simp [Reservation.spends, Tier3Event.claim, h]

theorem exists_event_of_usedBy (h : usedBy (auditCalls trace) c a) :
    ∃ call ∈ callsOf a trace, ∃ e, call.event? = some e ∧ e.clientId = c := by
  obtain ⟨audit, haudit, hp⟩ := List.any_eq_true.1 h
  obtain ⟨call, hcall, heq⟩ := List.mem_filterMap.1 haudit
  match audit, hp with
  | .record e, hp =>
    obtain ⟨hc, ha⟩ := of_decide_eq_true hp
    have he : call.event? = some e := by cases call <;> cases heq <;> rfl
    exact ⟨call, List.mem_filter.2 ⟨hcall, decide_eq_true ((Call.about_of_event he).trans ha)⟩, e, he, hc⟩

theorem Lawful.oneClient (h : Lawful trace) : OneClient (auditCalls trace) := by
  intro a c c' hc hc'
  obtain ⟨call, hcall, e, he, rfl⟩ := exists_event_of_usedBy hc
  obtain ⟨call', hcall', e', he', rfl⟩ := exists_event_of_usedBy hc'
  obtain ⟨s, hs⟩ := h.life a
  match s with
  | none => rw [callsOf_of_unborn hs] at hcall; cases hcall
  | some (o, ph) =>
    exact (congrArg Tier3Event.clientId (event_isOf hs hcall he)).trans
      (congrArg Tier3Event.clientId (event_isOf hs hcall' he')).symm

/-- `tier3_used_cents` of an uncrowded client is its live spend in the window. -/
theorem tier3UsedCents_eq_spent (h : Lawful trace)
    (htimes : (trace.filterMap Call.time?).Pairwise (· ≤ ·)) (hun : Uncrowded cfg c trace) {t : ℤ}
    (ht : ∀ x ∈ trace.filterMap Call.time?, x ≤ t) :
    tier3UsedCents cfg (storeAfter cfg trace).tier3Events c t = spentCents cfg c t (ledger trace) := by
  have hsub := auditTimes_sublist trace
  rw [tier3Events_storeAfter, tier3UsedCents_replay_of_uncrowded (htimes.sublist hsub) h.oneClient
    (fun x hx => ht x (hsub.subset hx)) (length_recent_le hun ht), tier3UsedCents_eq_claimed,
    accepted_eq_live h, spentCents_eq_claimed]

/-! ### What the ledger adds up to -/

theorem map_event_ledger (trace : List Call) : (ledger trace).map Reservation.event =
    trace.filterMap Call.reservedEvent? := by
  induction trace using List.reverseRecOn with
  | nil => rfl
  | append_singleton trace call ih =>
    rw [ledger_concat, map_event_book, ih, List.filterMap_append]
    cases call <;> rfl

theorem nodup_ledger (h : Lawful trace) :
    ((ledger trace).map fun r => r.event.actionId).Nodup := by
  induction trace using List.reverseRecOn with
  | nil => exact List.nodup_nil
  | append_singleton trace call ih =>
    have ih := ih h.of_append
    have hmap : ∀ l : List Reservation, l.map (fun r => r.event.actionId) =
        (l.map Reservation.event).map Tier3Event.actionId := fun l => by simp
    rw [hmap] at ih ⊢
    rw [ledger_concat, map_event_book, List.map_append]
    cases call with
    | reserved b e =>
      refine List.nodup_append.2 ⟨ih, List.nodup_singleton _, fun x hx y hy => ?_⟩
      obtain rfl : y = e.actionId := by simpa [Call.reservedEvent?] using hy
      rintro rfl
      -- an older reservation of the action would make two
      cases ha : e.actionId with
      | none => exact (h.idle (.reserved b e) (by simp) ha).elim
      | some a =>
        obtain ⟨s, hs⟩ := h.life a
        have hone := (summary_of_lifeOf hs).reservations
        have hlen : (reservationsOf a (trace ++ [.reserved b e])).length ≤ 1 := by
          rw [hone]
          match s with
          | none => exact Nat.zero_le _
          | some (o, ph) => cases ph <;> simp [Stage.show, ActionPhase.reservations]
        rw [map_event_ledger, ha] at hx
        obtain ⟨e', he', ha'⟩ := List.mem_map.1 hx
        obtain ⟨call, hcall, heq⟩ := List.mem_filterMap.1 he'
        have hold : () ∈ reservationsOf a trace := by
          refine List.mem_filterMap.2 ⟨call, List.mem_filter.2 ⟨hcall, ?_⟩, ?_⟩
          · cases call <;> cases heq; exact decide_eq_true ha'
          · cases call <;> cases heq; rfl
        have hnew : reservationsOf a (trace ++ [.reserved b e]) = reservationsOf a trace ++ [()] := by
          rw [reservationsOf, callsOf_concat_of_about (c := .reserved b e) ha, List.filterMap_append]; rfl
        rw [hnew, List.length_append] at hlen
        have hpos := List.length_pos_of_mem hold
        simp only [List.length_singleton] at hlen
        omega
    | _ => simpa [Call.reservedEvent?] using ih

theorem results_eq_fate (h : Lawful trace) : ∀ r ∈ ledger trace, ∀ a, r.event.actionId = some a →
    resultsOf a trace = r.fate.toList := by
  induction trace using List.reverseRecOn with
  | nil => intro r hr; cases hr
  | append_singleton trace call ih =>
    have ih := ih h.of_append
    intro r hr a ha
    rw [ledger_concat] at hr
    have hkeep : ∀ c : Call, c.result? = none → resultsOf a (trace ++ [c]) = resultsOf a trace := by
      intro c hc
      rw [resultsOf, callsOf_append, List.filterMap_append]
      by_cases hab : c.about = some a <;> simp [callsOf, hab, hc, resultsOf]
    cases call with
    | reserved b e =>
      rw [hkeep _ rfl]
      rcases List.mem_append.1 hr with hr | hr
      · exact ih r hr a ha
      · obtain rfl := List.mem_singleton.1 hr
        obtain ⟨s, s', hs, hnext, -⟩ := h.step_of_concat (a := a) ha
        rw [(summary_of_lifeOf hs).results]
        rcases Stage.next_cases hnext with ⟨_, -, hcontra, -⟩ | ⟨o, ph, ph', rfl, rfl, hn⟩
        · cases hcontra
        · cases hn <;> rfl
    | settled b byHuman result =>
      obtain ⟨r', hr', rfl⟩ := List.mem_map.1 hr
      by_cases hb : r'.event.actionId = some b
      · obtain rfl : a = b := by
          rw [Reservation.settle, if_pos hb] at ha; exact Option.some.inj (ha.symm.trans hb)
        obtain ⟨s, s', hs, hnext, -⟩ := h.step_of_concat (a := a) rfl
        rcases Stage.next_cases hnext with ⟨_, -, hcontra, -⟩ | ⟨o, ph, ph', rfl, rfl, hn⟩
        · cases hcontra
        · cases hn with
          | settle =>
            have hres : resultsOf a trace = [] := (summary_of_lifeOf hs).results
            have hfate := fate_of_unsettled hres r' hr' hb
            rw [resultsOf, callsOf_concat_of_about (c := .settled a byHuman result) rfl,
              List.filterMap_append, ← resultsOf, hres, Reservation.settle, if_pos hb, hfate]
            rfl
      · rw [Reservation.settle, if_neg hb] at ha ⊢
        have hba : b ≠ a := fun heq => hb (heq ▸ ha)
        rw [resultsOf, callsOf_concat_of_ne (c := .settled b byHuman result) (by simpa [Call.about] using hba)]
        exact ih r' hr' a ha
    | _ => rw [hkeep _ rfl]; exact ih r hr a ha

theorem filter_byClient {l : List Tier3Event}
    (h : ∀ e ∈ l, e.actionId = some a → e.clientId = c) :
    (byClient c l).filter (fun e => e.actionId = some a) = l.filter fun e => e.actionId = some a := by
  rw [byClient, List.filter_filter]
  refine List.filter_congr fun e he => ?_
  by_cases ha : e.actionId = some a
  · simp [ha, h e he ha]
  · simp [ha]

/-- What a settlement of an action in flight rewrites is the event of its reservation. -/
theorem settles_reservation (h : Lawful trace)
    (htimes : (trace.filterMap Call.time?).Pairwise (· ≤ ·)) {t : ℤ}
    (ht : ∀ x ∈ trace.filterMap Call.time?, x ≤ t) {b : Bool}
    (hlife : lifeOf a trace = some (some (o, .executing b))) (outcome : Outcome) (reason : String)
    (orderNumber : Option String) {events : List Tier3Event}
    (hevents : events = replay cfg (auditCalls trace)) :
    settleTier3Event events a outcome reason orderNumber = events ∨
      ∃ l₁ e l₂, events = l₁ ++ e :: l₂ ∧ .reserved b e ∈ trace ∧ e.actionId = some a ∧
        settleTier3Event events a outcome reason orderNumber =
          l₁ ++ e.settle outcome reason orderNumber :: l₂ := by
  subst hevents
  obtain ⟨rows, e, hrows, -, -, hreserved⟩ := rows_of_executing hlife
  have hmem : e ∈ (history (auditCalls trace)).filter fun e => e.actionId = some a := by
    rw [hrows]; simp
  have hea : e.actionId = some a := of_decide_eq_true (List.mem_filter.1 hmem).2
  have hused := usedBy_of_mem_history (List.mem_of_mem_filter hmem) hea
  -- the action's events still in the trail are the newest of its events
  have hsub := auditTimes_sublist trace
  obtain ⟨old, hold, -⟩ := tail_replay cfg e.clientId (htimes.sublist hsub) h.oneClient
    fun x hx => ht x (hsub.subset hx)
  have hold := congrArg (List.filter fun e => e.actionId = some a) hold
  rw [List.filter_append, filter_byClient fun x hx hxa => h.oneClient a _ _ (usedBy_of_mem_history hx hxa)
      hused, filter_byClient fun x hx hxa => h.oneClient a _ _ (usedBy_of_mem_replay hx hxa) hused,
    hrows] at hold
  rcases List.eq_nil_or_concat ((replay cfg (auditCalls trace)).filter fun e => e.actionId = some a) with
    hnil | ⟨rest, x, hx⟩
  · refine .inl (modifyNewest_of_forall_not fun x hx => ?_)
    exact eq_false_of_ne_true (List.filter_eq_nil_iff.1 hnil x hx)
  · rw [List.concat_eq_append] at hx
    rw [hx, ← List.append_assoc] at hold
    obtain ⟨-, hlast⟩ := List.append_inj' hold rfl
    obtain rfl : e = x := by simpa using hlast
    obtain ⟨l₁, l₂, hsplit, -, -, hl₂⟩ := exists_split_of_filter hx
    refine .inr ⟨l₁, e, l₂, hsplit, hreserved, hea, ?_⟩
    rw [hsplit]
    exact settleTier3Event_split hea fun y hy => of_decide_eq_false (hl₂ y hy)

theorem spentCents_append (l l' : List Reservation) (t : ℤ) :
    spentCents cfg c t (l ++ l') = spentCents cfg c t l + spentCents cfg c t l' := by
  simp [spentCents]

theorem spentCents_singleton_le (r : Reservation) (t : ℤ) :
    spentCents cfg c t [r] ≤ if r.event.clientId = c then r.event.amountCents else 0 := by
  by_cases hc : r.event.clientId = c <;> by_cases hs : r.spends cfg c t <;>
    simp_all [spentCents, Reservation.spends]

theorem spentCents_le_of_imp (l : List Reservation) (f : Reservation → Reservation)
    (p : Reservation → Bool) {t t' : ℤ} (hf : ∀ r, (f r).event = r.event)
    (h : ∀ r, p r → (f r).spends cfg c t → r.spends cfg c t') :
    spentCents cfg c t ((l.filter p).map f) ≤ spentCents cfg c t' l := by
  induction l with
  | nil => exact le_rfl
  | cons r l ih =>
    simp only [spentCents] at ih ⊢
    by_cases hp : p r
    · by_cases hs : (f r).spends cfg c t
      · simpa [hp, hs, h r hp hs, hf] using ih
      · by_cases hs' : r.spends cfg c t' <;> simp [hp, hs, hs'] <;> omega
    · by_cases hs' : r.spends cfg c t' <;> simp [hp, hs'] <;> omega

theorem spentCents_antitone (l : List Reservation) {t t' : ℤ} (ht : t ≤ t') :
    spentCents cfg c t' l ≤ spentCents cfg c t l := by
  have himp : ∀ r : Reservation, r.spends cfg c t' → r.spends cfg c t := fun r hr => by
    simp only [Reservation.spends, decide_eq_true_eq] at hr ⊢
    exact ⟨hr.1, hr.2.1, by omega⟩
  simpa using spentCents_le_of_imp l id (fun _ => true) (fun _ => rfl) fun r _ => himp r

theorem mandateCents_le_spentCents (l : List Reservation) (t : ℤ) :
    mandateCents cfg c t l ≤ spentCents cfg c t l := by
  have hid : ∀ r : Reservation, !r.approvedByHuman → r.spends cfg c t → r.spends cfg c t :=
    fun _ _ hr => hr
  simpa [mandateCents] using spentCents_le_of_imp l id (fun r => !r.approvedByHuman) (fun _ => rfl) hid

theorem mandateCents_append (l : List Reservation) (e : Tier3Event) (b : Bool) (t : ℤ) :
    mandateCents cfg c t (l ++ [⟨e, b, none⟩]) =
      mandateCents cfg c t l + if b then 0 else spentCents cfg c t [⟨e, b, none⟩] := by
  rw [mandateCents, List.filter_append, spentCents_append]
  cases b <;> simp [mandateCents, spentCents]

theorem mandateCents_book_le {call : Call} (h : ∀ e, call ≠ .reserved false e) (l : List Reservation)
    (t : ℤ) : mandateCents cfg c t (book l call) ≤ mandateCents cfg c t l := by
  cases call with
  | reserved b e =>
    cases b with
    | false => exact absurd rfl (h e)
    | true => rw [book, mandateCents_append]; simp
  | settled a b result =>
    have hfilter : (l.map (Reservation.settle a result)).filter (fun r => !r.approvedByHuman) =
        ((l.filter fun r => !r.approvedByHuman).filter fun _ => true).map (Reservation.settle a result) := by
      rw [List.filter_map]
      have : ((fun r : Reservation => !r.approvedByHuman) ∘ Reservation.settle a result) =
          fun r => !r.approvedByHuman := by
        funext r; simp only [Function.comp, Reservation.settle]; split <;> rfl
      rw [this]; simp
    rw [mandateCents, book, hfilter]
    refine spentCents_le_of_imp _ _ _ (fun r => ?_) fun r _ hr => ?_
    · unfold Reservation.settle; split <;> rfl
    · unfold Reservation.settle at hr
      split at hr
      · cases hfate : r.fate <;> simp_all [Reservation.spends, Reservation.live]
      · exact hr
  | _ => exact le_rfl

end

end Embassy
