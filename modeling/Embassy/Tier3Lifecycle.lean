import Embassy.Lib.Runs
import Embassy.Tier3Calls

/-!
# The life of one action

What may happen to one action, as an automaton on the calls about it: `Stage.next`. A trace is lawful
for an action when the calls about it are a path of the automaton
(`lifeOf`). What an action went through is read off its last phase (`Summary`): which events were
recorded, how it left the queue, whether it was handed off, what it was settled and resolved with.
-/

namespace Embassy
open Lib

namespace Exit

/-- The audit outcome of an entry that leaves the queue without being handed off. -/
def outcome : Exit → Outcome
  | expire => .expired
  | approve | reject | revoke => .rejected

def status : Exit → ResolutionStatus
  | expire => .expired
  | approve | reject | revoke => .rejected

end Exit

/-- Where an action stands. -/
inductive ActionPhase
  | minted
  /-- The queue was full. -/
  | turnedAway
  /-- In the queue, not audited yet; then not resolved yet. -/
  | entering (p : Tier3PendingAction)
  | entered (p : Tier3PendingAction)
  /-- Waiting for a human. -/
  | pending (p : Tier3PendingAction)
  /-- Popped, not audited yet; then not resolved yet; then gone for good. -/
  | leaving (exit : Exit)
  | closing (exit : Exit)
  | left (exit : Exit)
  | reserved (approvedByHuman : Bool)
  | executing (approvedByHuman : Bool)
  | settled (approvedByHuman : Bool) (result : HandoffResult)
  | resolved (approvedByHuman : Bool) (result : HandoffResult)
  deriving DecidableEq, Repr

def Tier3Event.IsOf (e : Tier3Event) (o : Order) (outcome : Outcome) : Prop :=
  e = o.event e.atTime outcome e.reason

instance (e : Tier3Event) (o : Order) (outcome : Outcome) : Decidable (e.IsOf o outcome) :=
  inferInstanceAs (Decidable (_ = _))

def Tier3Resolution.IsOf (r : Tier3Resolution) (o : Order) (status : ResolutionStatus) : Prop :=
  r.actionId = o.actionId ∧ r.clientId = o.clientId ∧ r.status = status

instance (r : Tier3Resolution) (o : Order) (status : ResolutionStatus) :
    Decidable (r.IsOf o status) := inferInstanceAs (Decidable (_ ∧ _ ∧ _))

namespace ActionPhase

/-- The next phase of an order's action, if the call is allowed. -/
def next (o : Order) : ActionPhase → Call → Option ActionPhase
  | minted, .reserved false e => if e.IsOf o .accepted then some (reserved false) else none
  | minted, .recorded e => if e.IsOf o .rejected then some turnedAway else none
  | minted, .queued p => if p.order = o then some (entering p) else none
  | entering p, .recorded e => if e.IsOf o .queued then some (entered p) else none
  | entered p, .resolved _ r => if r.IsOf o .queued then some (pending p) else none
  -- an overdue entry can only expire, and only an overdue one does
  | pending p, .popped exit now p' =>
    if p' = p ∧ (p.expiresAt < now ↔ exit = .expire) then some (leaving exit) else none
  | leaving exit, .recorded e => if e.IsOf o exit.outcome then some (closing exit) else none
  | leaving .approve, .reserved true e => if e.IsOf o .accepted then some (reserved true) else none
  | closing exit, .resolved _ r => if r.IsOf o exit.status then some (left exit) else none
  | reserved b, .handedOff _ => some (executing b)
  | executing b, .settled _ b' result => if b' = b then some (settled b result) else none
  | settled b result, .resolved _ r =>
    if r.IsOf o (settlement b result).status then some (resolved b result) else none
  | _, _ => none

/-- The moves of `next`. -/
inductive Next (o : Order) : ActionPhase → Call → ActionPhase → Prop
  | reserve {e} (h : e.IsOf o .accepted) : Next o minted (.reserved false e) (reserved false)
  | turnAway {e} (h : e.IsOf o .rejected) : Next o minted (.recorded e) turnedAway
  | enqueue {p} (h : p.order = o) : Next o minted (.queued p) (entering p)
  | audit {p e} (h : e.IsOf o .queued) : Next o (entering p) (.recorded e) (entered p)
  | await {p c r} (h : r.IsOf o .queued) : Next o (entered p) (.resolved c r) (pending p)
  | pop {p exit now} (h : p.expiresAt < now ↔ exit = .expire) :
      Next o (pending p) (.popped exit now p) (leaving exit)
  | drop {exit e} (h : e.IsOf o exit.outcome) : Next o (leaving exit) (.recorded e) (closing exit)
  | approve {e} (h : e.IsOf o .accepted) :
      Next o (leaving .approve) (.reserved true e) (reserved true)
  | leave {exit c r} (h : r.IsOf o exit.status) : Next o (closing exit) (.resolved c r) (left exit)
  | handOff {b a} : Next o (reserved b) (.handedOff a) (executing b)
  | settle {b a result} : Next o (executing b) (.settled a b result) (settled b result)
  | resolve {b result c r} (h : r.IsOf o (settlement b result).status) :
      Next o (settled b result) (.resolved c r) (resolved b result)

theorem Next.of_next {o : Order} {ph ph' : ActionPhase} {c : Call} (h : ph.next o c = some ph') :
    Next o ph c ph' := by
  unfold next at h
  split at h <;> simp only [Option.ite_none_right_eq_some, Option.some.injEq, reduceCtorEq] at h
  · obtain ⟨hc, rfl⟩ := h; exact .reserve hc
  · obtain ⟨hc, rfl⟩ := h; exact .turnAway hc
  · obtain ⟨hc, rfl⟩ := h; exact .enqueue hc
  · obtain ⟨hc, rfl⟩ := h; exact .audit hc
  · obtain ⟨hc, rfl⟩ := h; exact .await hc
  · obtain ⟨⟨rfl, hc⟩, rfl⟩ := h; exact .pop hc
  · obtain ⟨hc, rfl⟩ := h; exact .drop hc
  · obtain ⟨hc, rfl⟩ := h; exact .approve hc
  · obtain ⟨hc, rfl⟩ := h; exact .leave hc
  · subst h; exact .handOff
  · obtain ⟨rfl, rfl⟩ := h; exact .settle
  · obtain ⟨hc, rfl⟩ := h; exact .resolve hc

/-- The events recorded so far for a reservation. -/
def reservedOutcomes (approvedByHuman : Bool) : List Outcome :=
  if approvedByHuman then [.queued, .accepted] else [.accepted]

/-- The outcomes of the events recorded so far. -/
def outcomes : ActionPhase → List Outcome
  | minted | entering _ => []
  | turnedAway => [.rejected]
  | entered _ | pending _ | leaving _ => [.queued]
  | closing exit | left exit => [.queued, exit.outcome]
  | reserved b | executing b | settled b _ | resolved b _ => reservedOutcomes b

/-- How often the action was queued. -/
def entries : ActionPhase → List Unit
  | minted | turnedAway => []
  | entering _ | entered _ | pending _ | leaving _ | closing _ | left _ => [()]
  | reserved b | executing b | settled b _ | resolved b _ => if b then [()] else []

/-- How the action left the queue. -/
def exits : ActionPhase → List Exit
  | minted | turnedAway | entering _ | entered _ | pending _ => []
  | leaving exit | closing exit | left exit => [exit]
  | reserved b | executing b | settled b _ | resolved b _ => if b then [.approve] else []

def reservations : ActionPhase → List Unit
  | minted | turnedAway | entering _ | entered _ | pending _ | leaving _ | closing _ | left _ => []
  | reserved _ | executing _ | settled .. | resolved .. => [()]

def handoffs : ActionPhase → List Unit
  | minted | turnedAway | entering _ | entered _ | pending _ | leaving _ | closing _ | left _ |
    reserved _ => []
  | executing _ | settled .. | resolved .. => [()]

def results : ActionPhase → List HandoffResult
  | minted | turnedAway | entering _ | entered _ | pending _ | leaving _ | closing _ | left _ |
    reserved _ | executing _ => []
  | settled _ result | resolved _ result => [result]

def verdicts : ActionPhase → List ResolutionStatus
  | left exit => [exit.status]
  | resolved b result => [(settlement b result).status]
  | _ => []

/-- The status of the action's resolution, where it has one. -/
def status? : ActionPhase → Option ResolutionStatus
  | minted | turnedAway | entering _ | entered _ => none
  | pending _ | leaving _ | closing _ => some .queued
  | left exit => some exit.status
  | reserved b | executing b | settled b _ => if b then some .queued else none
  | resolved b result => some (settlement b result).status

end ActionPhase

/-- An action that got its id, or `none`. -/
abbrev Stage := Option (Order × ActionPhase)

def Stage.next : Stage → Call → Option Stage
  | none, .minted o => some (some (o, .minted))
  | none, _ => none
  | some (o, ph), call => (ph.next o call).map fun ph' => some (o, ph')

def callsOf (a : String) (trace : List Call) : List Call := trace.filter fun c => c.about = some a

/-- Where the action stands after the calls, if they are lawful. -/
def lifeOf (a : String) (trace : List Call) : Option Stage := run Stage.next none (callsOf a trace)

namespace Call

def outcome? (c : Call) : Option Outcome := c.event?.map Tier3Event.outcome

def queued? : Call → Option Unit
  | queued _ => some ()
  | _ => none

def exit? : Call → Option Exit
  | popped exit .. => some exit
  | _ => none

def reservation? : Call → Option Unit
  | reserved .. => some ()
  | _ => none

def handoff? : Call → Option Unit
  | handedOff _ => some ()
  | _ => none

def result? : Call → Option HandoffResult
  | settled _ _ result => some result
  | _ => none

def verdict? : Call → Option ResolutionStatus
  | resolved _ r => if r.status = .queued then none else some r.status
  | _ => none

end Call

theorem Exit.status_ne_queued (exit : Exit) : exit.status ≠ .queued := by cases exit <;> decide

theorem settlement_status_ne_queued (b : Bool) (result : HandoffResult) :
    (settlement b result).status ≠ .queued := by cases result <;> simp [settlement]

theorem Tier3Event.IsOf.outcome_eq {e : Tier3Event} {o : Order} {outcome : Outcome}
    (h : e.IsOf o outcome) : e.outcome = outcome := congrArg Tier3Event.outcome h

namespace ActionPhase.Next
variable {o : Order} {ph ph' : ActionPhase} {c : Call}

theorem outcomes_eq (h : Next o ph c ph') : ph'.outcomes = ph.outcomes ++ c.outcome?.toList := by
  cases h with
  | reserve h | turnAway h | audit h | drop h | approve h =>
    simp [outcomes, reservedOutcomes, Call.outcome?, Call.event?, h.outcome_eq]
  | _ => simp [outcomes, Call.outcome?, Call.event?]

theorem entries_eq (h : Next o ph c ph') : ph'.entries = ph.entries ++ c.queued?.toList := by
  cases h <;> simp [entries, Call.queued?]

theorem exits_eq (h : Next o ph c ph') : ph'.exits = ph.exits ++ c.exit?.toList := by
  cases h <;> simp [exits, Call.exit?]

theorem reservations_eq (h : Next o ph c ph') :
    ph'.reservations = ph.reservations ++ c.reservation?.toList := by
  cases h <;> simp [reservations, Call.reservation?]

theorem handoffs_eq (h : Next o ph c ph') : ph'.handoffs = ph.handoffs ++ c.handoff?.toList := by
  cases h <;> simp [handoffs, Call.handoff?]

theorem results_eq (h : Next o ph c ph') : ph'.results = ph.results ++ c.result?.toList := by
  cases h <;> simp [results, Call.result?]

theorem verdicts_eq (h : Next o ph c ph') : ph'.verdicts = ph.verdicts ++ c.verdict?.toList := by
  cases h with
  | await h => simp [verdicts, Call.verdict?, h.2.2]
  | leave h => simp [verdicts, Call.verdict?, h.2.2, Exit.status_ne_queued]
  | resolve h => simp [verdicts, Call.verdict?, h.2.2, settlement_status_ne_queued]
  | _ => simp [verdicts, Call.verdict?]

end ActionPhase.Next

/-! ### Paths -/

section
variable {a : String} {trace cs : List Call} {c : Call} {s : Stage} {o : Order} {ph : ActionPhase}

theorem Stage.next_cases {s' : Stage} (h : s.next c = some s') :
    (∃ o, s = none ∧ c = .minted o ∧ s' = some (o, .minted)) ∨
      ∃ o ph ph', s = some (o, ph) ∧ s' = some (o, ph') ∧ ActionPhase.Next o ph c ph' := by
  rcases s with _ | ⟨o, ph⟩
  · cases c with
    | minted o => exact .inl ⟨o, rfl, rfl, (Option.some.inj h).symm⟩
    | _ => cases h
  · obtain ⟨ph', hph, rfl⟩ := Option.map_eq_some_iff.1 h
    exact .inr ⟨o, ph, ph', rfl, rfl, .of_next hph⟩

@[simp] theorem lifeOf_nil : lifeOf a [] = some none := rfl

theorem lifeOf_append_of_about (h : ∀ c ∈ cs, c.about = some a) :
    lifeOf a (trace ++ cs) = (lifeOf a trace).bind fun s => run Stage.next s cs := by
  have hcs : cs.filter (fun c => c.about = some a) = cs := List.filter_eq_self.2 (by simpa using h)
  rw [lifeOf, callsOf, List.filter_append, hcs, run_append]
  rfl

theorem lifeOf_append_of_ne (h : ∀ c ∈ cs, c.about ≠ some a) :
    lifeOf a (trace ++ cs) = lifeOf a trace := by
  have hcs : cs.filter (fun c => c.about = some a) = [] := List.filter_eq_nil_iff.2 (by simpa using h)
  rw [lifeOf, callsOf, List.filter_append, hcs, List.append_nil]
  rfl

theorem lifeOf_of_fresh (h : ∀ c ∈ trace, c.about ≠ some a) : lifeOf a trace = some none :=
  (lifeOf_append_of_ne h : lifeOf a ([] ++ trace) = lifeOf a [])

theorem callsOf_append : callsOf a (trace ++ cs) = callsOf a trace ++ callsOf a cs :=
  List.filter_append ..

theorem callsOf_concat_of_about (h : c.about = some a) :
    callsOf a (trace ++ [c]) = callsOf a trace ++ [c] := by
  simp [callsOf, h]

theorem callsOf_concat_of_ne (h : c.about ≠ some a) : callsOf a (trace ++ [c]) = callsOf a trace := by
  simp [callsOf, h]

theorem step_of_lifeOf_concat (h : lifeOf a (trace ++ [c]) = some s) (hc : c.about = some a) :
    ∃ s₁, lifeOf a trace = some s₁ ∧ s₁.next c = some s := by
  rw [lifeOf_append_of_about (by simpa using hc)] at h
  obtain ⟨s₁, h₁, hrun⟩ := Option.bind_eq_some_iff.1 h
  obtain ⟨s₂, h₂, hnil⟩ := Option.bind_eq_some_iff.1 hrun
  obtain rfl := Option.some.inj hnil
  exact ⟨s₁, h₁, h₂⟩

theorem callsOf_of_unborn (h : lifeOf a trace = some none) : callsOf a trace = [] := by
  induction trace using List.reverseRecOn with
  | nil => rfl
  | append_singleton trace c ih =>
    by_cases hc : c.about = some a
    · obtain ⟨s₁, -, hnext⟩ := step_of_lifeOf_concat h hc
      rcases Stage.next_cases hnext with ⟨_, -, -, hcontra⟩ | ⟨_, _, _, -, hcontra, -⟩ <;> cases hcontra
    · rw [callsOf_concat_of_ne hc]
      exact ih (by rwa [lifeOf_append_of_ne (by simpa using hc)] at h)

/-- What holds along every path of the automaton. -/
theorem lifeOf_induct {P : List Call → Stage → Prop} (h : lifeOf a trace = some s) (hnone : P [] none)
    (hminted : ∀ o, o.actionId = a → P [.minted o] (some (o, .minted)))
    (hnext : ∀ cs o ph c ph', c.about = some a → P cs (some (o, ph)) → ActionPhase.Next o ph c ph' →
      P (cs ++ [c]) (some (o, ph'))) : P (callsOf a trace) s := by
  induction trace using List.reverseRecOn generalizing s with
  | nil => obtain rfl := Option.some.inj h; exact hnone
  | append_singleton trace c ih =>
    by_cases hc : c.about = some a
    · rw [callsOf_concat_of_about hc]
      obtain ⟨s₁, h₁, h₂⟩ := step_of_lifeOf_concat h hc
      rcases Stage.next_cases h₂ with ⟨o, rfl, rfl, rfl⟩ | ⟨o, ph, ph', rfl, rfl, hn⟩
      · rw [callsOf_of_unborn h₁]
        exact hminted o (Option.some.inj hc)
      · exact hnext _ o ph c ph' hc (ih h₁) hn
    · rw [callsOf_concat_of_ne hc]
      exact ih (by rwa [lifeOf_append_of_ne (by simpa using hc)] at h)

theorem order_of_lifeOf (h : lifeOf a trace = some (some (o, ph))) : o.actionId = a :=
  lifeOf_induct (P := fun _ s => ∀ o ph, s = some (o, ph) → o.actionId = a) h (fun _ _ h => by cases h)
    (fun o ho _ _ h => by cases h; exact ho)
    (fun _ o ph c ph' _ ih _ _ _ h => by cases h; exact ih _ _ rfl) o ph rfl

theorem ActionPhase.Next.isOf {ph' : ActionPhase} (h : Next o ph c ph') {e : Tier3Event}
    (he : c.event? = some e) : e.IsOf o e.outcome := by
  cases h with
  | reserve h | turnAway h | audit h | drop h | approve h =>
    obtain rfl := Option.some.inj he
    rw [h.outcome_eq]; exact h
  | _ => cases he

theorem event_isOf (h : lifeOf a trace = some (some (o, ph))) {e : Tier3Event} (hc : c ∈ callsOf a trace)
    (he : c.event? = some e) : e.IsOf o e.outcome := by
  refine lifeOf_induct (P := fun cs s => ∀ o ph, s = some (o, ph) → ∀ c ∈ cs, ∀ e, c.event? = some e →
    e.IsOf o e.outcome) h (fun _ _ h => by cases h) (fun o _ _ _ _ c hc e he => ?_)
    (fun cs o ph c ph' _ ih hn o' ph'' h d hd e he => ?_) o ph rfl c hc e he
  · obtain rfl := List.mem_singleton.1 hc; cases he
  · obtain ⟨rfl, rfl⟩ : o = o' ∧ ph' = ph'' := by simpa using h
    rcases List.mem_append.1 hd with hd | hd
    · exact ih o ph rfl d hd e he
    · obtain rfl := List.mem_singleton.1 hd; exact hn.isOf he

/-- The entry of a queued action is the order's. -/
def ActionPhase.queued? : ActionPhase → Option Tier3PendingAction
  | entering p | entered p | pending p => some p
  | _ => none

theorem entry_order_of_lifeOf {p : Tier3PendingAction} (h : lifeOf a trace = some (some (o, ph)))
    (hp : ph.queued? = some p) : p.order = o := by
  refine lifeOf_induct (P := fun _ s => ∀ o ph p, s = some (o, ph) → ph.queued? = some p → p.order = o) h
    (fun _ _ _ h => by cases h) (fun o ho _ _ _ h hp => by cases h; cases hp)
    (fun _ o ph c ph' _ ih hn o' ph'' p h hp => ?_) o ph p rfl hp
  obtain ⟨rfl, rfl⟩ : o = o' ∧ ph' = ph'' := by simpa using h
  cases hn with
  | enqueue ho => obtain rfl := Option.some.inj hp; exact ho
  | audit | await => exact ih _ _ p rfl hp
  | _ => cases hp

end

/-- A lift of an observation of phases to stages. -/
def Stage.show {β : Type*} (obs : ActionPhase → List β) : Stage → List β
  | none => []
  | some (_, ph) => obs ph

section
variable {β : Type*} {f : Call → Option β} {obs : ActionPhase → List β} {a : String}
  {trace : List Call} {s : Stage}

/-- An observation the automaton keeps is what the calls about the action show. -/
theorem filterMap_callsOf (hminted : ∀ o, f (.minted o) = none) (hstart : obs .minted = [])
    (hobs : ∀ {o ph c ph'}, ActionPhase.Next o ph c ph' → obs ph' = obs ph ++ (f c).toList)
    (h : lifeOf a trace = some s) : (callsOf a trace).filterMap f = s.show obs := by
  have := filterMap_of_run f (Stage.show obs) (fun s c s' hs => ?_) h
  · simpa [Stage.show] using this.symm
  · rcases Stage.next_cases hs with ⟨o, rfl, rfl, rfl⟩ | ⟨o, ph, ph', rfl, rfl, hn⟩
    · simp [Stage.show, hminted, hstart]
    · exact hobs hn

/-- The outcomes of the events recorded about an action, oldest first. -/
def outcomesOf (a : String) (trace : List Call) : List Outcome :=
  (callsOf a trace).filterMap Call.outcome?

/-- The times an action was queued. -/
def entriesOf (a : String) (trace : List Call) : List Unit :=
  (callsOf a trace).filterMap Call.queued?

def exitsOf (a : String) (trace : List Call) : List Exit := (callsOf a trace).filterMap Call.exit?

def reservationsOf (a : String) (trace : List Call) : List Unit :=
  (callsOf a trace).filterMap Call.reservation?

def handoffsOf (a : String) (trace : List Call) : List Unit :=
  (callsOf a trace).filterMap Call.handoff?

def resultsOf (a : String) (trace : List Call) : List HandoffResult :=
  (callsOf a trace).filterMap Call.result?

def verdictsOf (a : String) (trace : List Call) : List ResolutionStatus :=
  (callsOf a trace).filterMap Call.verdict?

/-- The stage of an action says what happened to it. -/
structure Summary (a : String) (trace : List Call) (s : Stage) : Prop where
  outcomes : outcomesOf a trace = s.show ActionPhase.outcomes
  entries : entriesOf a trace = s.show ActionPhase.entries
  exits : exitsOf a trace = s.show ActionPhase.exits
  reservations : reservationsOf a trace = s.show ActionPhase.reservations
  handoffs : handoffsOf a trace = s.show ActionPhase.handoffs
  results : resultsOf a trace = s.show ActionPhase.results
  verdicts : verdictsOf a trace = s.show ActionPhase.verdicts

theorem summary_of_lifeOf (h : lifeOf a trace = some s) : Summary a trace s where
  outcomes := filterMap_callsOf (fun _ => rfl) rfl ActionPhase.Next.outcomes_eq h
  entries := filterMap_callsOf (fun _ => rfl) rfl ActionPhase.Next.entries_eq h
  exits := filterMap_callsOf (fun _ => rfl) rfl ActionPhase.Next.exits_eq h
  reservations := filterMap_callsOf (fun _ => rfl) rfl ActionPhase.Next.reservations_eq h
  handoffs := filterMap_callsOf (fun _ => rfl) rfl ActionPhase.Next.handoffs_eq h
  results := filterMap_callsOf (fun _ => rfl) rfl ActionPhase.Next.results_eq h
  verdicts := filterMap_callsOf (fun _ => rfl) rfl ActionPhase.Next.verdicts_eq h

end

end Embassy
