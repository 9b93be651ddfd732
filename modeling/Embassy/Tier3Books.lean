import Embassy.Polling
import Embassy.ReservationSettles
import Embassy.Tier3Queue

/-!
# The audit trail and the resolutions tell one story

Each action has rows in the audit trail and one entry in the resolution map, both pruned and capped on
their own. The newest row, and the resolution's channel and order number, are read off the action's
phase (`row_history`, `says_of_reaches`); pruning the trail can lose the newest row but never shows an
older one in its place (`newestRow_of_replay`). So whatever is left of the two agrees, agrees with what
the order itself was answered, and never changes once the resolution is terminal
(`booksAgree_of_reaches`).
-/

namespace Embassy
open Lib

/-- The rows of the audit trail about an action, oldest first. -/
def rowsOf (a : String) (events : List Tier3Event) : List Tier3Event :=
  events.filter fun e => e.actionId = some a

/-- The newest of them, the one `settle_tier3_event` writes to. -/
def newestRow (a : String) (events : List Tier3Event) : Option Tier3Event := (rowsOf a events).getLast?

/-- The event is the order's, as the settlement left it. -/
def Tier3Event.Settles (e : Tier3Event) (o : Order) (s : Settlement) : Prop :=
  e = { o.event e.atTime s.outcome s.reason with orderNumber := s.orderNumber }

def ActionPhase.Row (o : Order) (e : Tier3Event) : ActionPhase → Prop
  | minted | entering _ => False
  | turnedAway => e.IsOf o .rejected
  | entered _ | pending _ | leaving _ => e.IsOf o .queued
  | closing exit | left exit => e.IsOf o exit.outcome
  | reserved _ | executing _ => e.IsOf o .accepted
  | settled b result | resolved b result => e.Settles o (settlement b result)

def Stage.Row (e : Tier3Event) : Stage → Prop
  | none => False
  | some (o, ph) => ph.Row o e

/-- The resolution repeats what `_settle_handoff` told it. -/
def Tier3Resolution.Repeats (r : Tier3Resolution) (s : Settlement) : Prop :=
  r.status = s.status ∧ r.detail = s.detail ∧ r.channel = s.channel ∧ r.orderNumber = s.orderNumber

/-- The resolution of an action in this phase: only a settlement names a channel or an order number. -/
def ActionPhase.Says (r : Tier3Resolution) : ActionPhase → Prop
  | resolved b result => r.Repeats (settlement b result)
  | _ => r.channel = none ∧ r.orderNumber = none

def Stage.Says (r : Tier3Resolution) : Stage → Prop
  | none => False
  | some (_, ph) => ph.Says r

/-! ### The newest row -/

section
variable {cfg : Tier3Config} {trace : List Call} {call : Call} {a b : String} {o : Order}
  {ph : ActionPhase} {events : List Tier3Event} {e : Tier3Event} {outcome : Outcome} {reason : String}
  {orderNumber : Option String}

theorem newestRow_append (l : List Tier3Event) :
    newestRow a (events ++ l) = (newestRow a l).or (newestRow a events) := by
  rw [newestRow, rowsOf, List.filter_append, List.getLast?_append]
  rfl

theorem newestRow_concat (h : e.actionId = some a) : newestRow a (events ++ [e]) = some e := by
  rw [newestRow_append]
  simp [newestRow, rowsOf, h]

theorem newestRow_concat_of_ne (h : e.actionId ≠ some a) :
    newestRow a (events ++ [e]) = newestRow a events := by
  rw [newestRow_append]
  simp [newestRow, rowsOf, h]

theorem actionId_of_newestRow (h : newestRow a events = some e) : e.actionId = some a :=
  of_decide_eq_true (List.mem_filter.1 (List.mem_of_getLast? h)).2

theorem newestRow_split {l₁ l₂ : List Tier3Event} (h : e.actionId = some a)
    (h₂ : ∀ x ∈ l₂, x.actionId ≠ some a) : newestRow a (l₁ ++ e :: l₂) = some e := by
  rw [List.append_cons, newestRow_append, newestRow_concat h, newestRow, rowsOf,
    List.filter_eq_nil_iff.2 fun x hx => by simp [h₂ x hx]]
  rfl

theorem newestRow_settle : newestRow a (settleTier3Event events a outcome reason orderNumber) =
    (newestRow a events).map (Tier3Event.settle outcome reason orderNumber) := by
  rcases List.eq_nil_or_concat (rowsOf a events) with hnil | ⟨rows, e, hrows⟩
  · have hsame : settleTier3Event events a outcome reason orderNumber = events :=
      modifyNewest_of_forall_not fun x hx => eq_false_of_ne_true (List.filter_eq_nil_iff.1 hnil x hx)
    rw [hsame, newestRow, hnil]
    rfl
  · rw [List.concat_eq_append] at hrows
    obtain ⟨l₁, l₂, rfl, he, -, hl₂⟩ := exists_split_of_filter hrows
    have hea : e.actionId = some a := of_decide_eq_true he
    have hother : ∀ x ∈ l₂, x.actionId ≠ some a := fun x hx => of_decide_eq_false (hl₂ x hx)
    rw [settleTier3Event_split hea hother, newestRow_split hea hother,
      newestRow_split (e := e.settle outcome reason orderNumber) hea hother]
    rfl

theorem newestRow_settle_of_ne (h : b ≠ a) :
    newestRow a (settleTier3Event events b outcome reason orderNumber) = newestRow a events :=
  congrArg List.getLast? (filter_modifyNewest_of_not (fun e _ hp => by
    simp only [decide_eq_true_eq] at hp
    simp [hp, h]) fun _ => rfl)

theorem newestRow_history_of_ne (h : call.about ≠ some a) :
    newestRow a (history (auditCalls (trace ++ [call]))) = newestRow a (history (auditCalls trace)) := by
  rcases call.audit_cases with ⟨e, he⟩ | ⟨b, byHuman, result, rfl⟩ | ⟨-, haudit⟩
  · rw [history_event he, newestRow_concat_of_ne (Call.about_of_event he ▸ h)]
  · rw [history_settled, newestRow_settle_of_ne fun hb => h (by rw [hb]; rfl)]
  · rw [history_other haudit]

theorem Tier3Event.IsOf.settles (h : e.IsOf o outcome) (b : Bool) (result : HandoffResult) :
    (e.settle (settlement b result).outcome (settlement b result).reason
      (settlement b result).orderNumber).Settles o (settlement b result) := by
  rw [Tier3Event.IsOf] at h
  rw [h, Tier3Event.Settles]
  simp [Tier3Event.settle, Order.event]

/-- The newest row ever recorded about an action is its phase's. -/
theorem row_history {s : Stage} (h : lifeOf a trace = some s)
    (he : newestRow a (history (auditCalls trace)) = some e) : s.Row e := by
  induction trace using List.reverseRecOn generalizing s e with
  | nil => cases he
  | append_singleton trace call ih =>
    by_cases hc : call.about = some a
    · obtain ⟨s₁, h₁, hnext⟩ := step_of_lifeOf_concat h hc
      have hold := fun e => @ih e s₁ h₁
      rcases Stage.next_cases hnext with ⟨o, rfl, rfl, rfl⟩ | ⟨o, ph, ph', rfl, rfl, hn⟩
      · rw [history_other rfl] at he
        exact (hold e he).elim
      · cases hn with
        | reserve hof | turnAway hof | audit hof | drop hof | approve hof =>
          rw [history_event rfl, newestRow_concat ((Call.about_of_event rfl).symm.trans hc)] at he
          obtain rfl := Option.some.inj he
          exact hof
        | settle =>
          obtain rfl := Option.some.inj hc
          rw [history_settled, newestRow_settle] at he
          obtain ⟨e₀, he₀, rfl⟩ := Option.map_eq_some_iff.1 he
          exact (hold e₀ he₀).settles _ _
        | _ =>
          rw [history_other rfl] at he
          exact hold e he
    · rw [newestRow_history_of_ne hc] at he
      rw [lifeOf_append_of_ne (by simpa using hc)] at h
      exact ih h he

/-- Once its newest row is pruned, an action has no rows left. -/
theorem newestRow_of_replay (h : Lawful trace) (htimes : (trace.filterMap Call.time?).Pairwise (· ≤ ·))
    (he : newestRow a (replay cfg (auditCalls trace)) = some e) :
    newestRow a (history (auditCalls trace)) = some e := by
  have hea := actionId_of_newestRow he
  have hused := usedBy_of_mem_replay (List.mem_of_mem_filter (List.mem_of_getLast? he)) hea
  obtain ⟨t, ht⟩ := ((auditCalls trace).filterMap AuditCall.time?).toFinset.exists_le
  obtain ⟨old, hold, -⟩ := tail_replay cfg e.clientId (htimes.sublist (auditTimes_sublist _))
    h.oneClient fun x hx => ht x (List.mem_toFinset.2 hx)
  have hrows := congrArg (rowsOf a) hold
  simp only [rowsOf, List.filter_append] at hrows
  rw [filter_byClient fun x hx hxa => h.oneClient a _ _ (usedBy_of_mem_history hx hxa) hused,
    filter_byClient fun x hx hxa => h.oneClient a _ _ (usedBy_of_mem_replay hx hxa) hused] at hrows
  rw [newestRow, rowsOf] at he ⊢
  rw [hrows, List.getLast?_append, he]
  rfl

end

/-- A call that tells no result: a resolution it sets is queued, rejected or expired. -/
def Call.Bare : Call → Prop
  | .resolved _ r => (r.status = .queued ∨ r.status = .rejected ∨ r.status = .expired) ∧
      r.channel = none ∧ r.orderNumber = none
  | _ => True

/-- The call tells no result, or the one its action was settled with. -/
def Call.Told (trace : List Call) (call : Call) : Prop :=
  call.Bare ∨ ∃ created r o b result, call = .resolved created r ∧
    lifeOf r.actionId trace = some (some (o, .settled b result)) ∧ r.Repeats (settlement b result)

/-- Every resolution says what its action's phase says. -/
def Delivered (cfg : Tier3Config) (trace : List Call) : Prop :=
  ∀ a s r, lifeOf a trace = some s → (storeAfter cfg trace).tier3Resolutions.get? a = some r → s.Says r

section
variable {cfg : Tier3Config} {trace cs : List Call} {call : Call} {a : String} {o : Order}

theorem settlement_status_cases (b : Bool) (result : HandoffResult) :
    (settlement b result).status = .executed ∨ (settlement b result).status = .failed ∨
      (settlement b result).status = .executionUnknown := by
  cases result <;> simp [settlement]

theorem get?_resolved {s : Tier3Store} {created : Bool} {r₀ r : Tier3Resolution}
    (h : ((Call.resolved created r₀).apply cfg s).tier3Resolutions.get? r₀.actionId = some r) :
    r = r₀.entry ∨ ∃ r', s.tier3Resolutions.get? r₀.actionId = some r' ∧
      r = r'.update r₀.updatedAt r₀.status r₀.detail r₀.channel r₀.orderNumber := by
  have h := get?_setTier3Resolution h
  rwa [if_pos rfl] at h

theorem Delivered.concat (hd : Delivered cfg trace) (hl : Lawful (trace ++ [call]))
    (ht : call.Told trace) : Delivered cfg (trace ++ [call]) := by
  intro a s r hs hr
  rw [storeAfter_concat] at hr
  by_cases hc : call.about = some a
  · obtain ⟨s₁, h₁, hnext⟩ := step_of_lifeOf_concat hs hc
    have hold := fun r => hd a s₁ r h₁
    rcases Stage.next_cases hnext with ⟨o, rfl, rfl, rfl⟩ | ⟨o, ph, ph', rfl, rfl, hn⟩
    · exact (hold r hr).elim
    · cases hn with
      | await hof | leave hof =>
        -- neither phase is a settlement's, so the call tells no result
        obtain rfl := Option.some.inj hc
        rcases ht with ⟨-, hch, hno⟩ | ⟨_, _, _, _, _, ⟨⟩, hlife, -⟩
        · rcases get?_resolved hr with rfl | ⟨r', hr', rfl⟩
          · exact ⟨hch, hno⟩
          · obtain ⟨hch', hno'⟩ := hold r' hr'
            simp [Stage.Says, ActionPhase.Says, Tier3Resolution.update, hch, hno, hch', hno']
        · cases h₁.symm.trans hlife
      | @resolve b result _ _ hof =>
        obtain rfl := Option.some.inj hc
        rcases ht with ⟨hst, -⟩ | ⟨_, _, _, _, _, ⟨⟩, hlife, hrep⟩
        · rw [hof.2.2] at hst
          rcases settlement_status_cases b result with h | h | h <;> simp [h] at hst
        · cases h₁.symm.trans hlife
          rcases get?_resolved hr with rfl | ⟨r', hr', rfl⟩
          · exact hrep
          · obtain ⟨hch', hno'⟩ := hold r' hr'
            simpa [Stage.Says, ActionPhase.Says, Tier3Resolution.Repeats, Tier3Resolution.update, hch', hno']
              using hrep
      | _ => exact hold r hr
  · rw [lifeOf_append_of_ne (by simpa using hc)] at hs
    exact hd a s r hs (get?_resolutions_of_ne hc hr)

theorem Delivered.append (hd : Delivered cfg trace) (hl : Lawful (trace ++ cs))
    (hcs : ∀ call ∈ cs, call.Bare) : Delivered cfg (trace ++ cs) := by
  induction cs using List.reverseRecOn with
  | nil => simpa using hd
  | append_singleton cs call ih =>
    rw [← List.append_assoc] at hl ⊢
    exact (ih hl.of_append fun c hc => hcs c (by simp [hc])).concat hl (.inl (hcs call (by simp)))

end

/-! ### What a step tells -/

/-- Calls that tell no result were made. -/
def Quiet (w w' : World) : Prop := ∃ cs, w'.trace = w.trace ++ cs ∧ ∀ call ∈ cs, call.Bare

namespace Quiet
variable {env : Env} {w w' w'' : World}

theorem refl (w : World) : Quiet w w := ⟨[], by simp⟩

theorem trans (h : Quiet w w') (h' : Quiet w' w'') : Quiet w w'' := by
  obtain ⟨cs, hw, hcs⟩ := h
  obtain ⟨cs', hw', hcs'⟩ := h'
  refine ⟨cs ++ cs', by rw [hw', hw, List.append_assoc], fun call hc => ?_⟩
  exact (List.mem_append.1 hc).elim (hcs call) (hcs' call)

theorem goto (h : Quiet w w') (i : ℕ) (x : Handler) : Quiet w (w'.goto i x) := h

theorem call {c : Call} (w : World) (hc : c.Bare) : Quiet w (w.call env c) := ⟨[c], rfl, by simpa using hc⟩

theorem recordTier3Event (w : World) (clientId item : String) (amountCents : ℕ) (outcome : Outcome)
    (reason : String) (actionId : Option String) :
    Quiet w (w.recordTier3Event env clientId item amountCents outcome reason actionId) :=
  call w.tick trivial

theorem reserve (w : World) (o : Order) (approvedByHuman : Bool) (reason : String) :
    Quiet w (w.reserve env o approvedByHuman reason) :=
  call w.tick trivial

theorem setTier3Resolution (w : World) (actionId clientId : String) {status : ResolutionStatus}
    (hst : status = .queued ∨ status = .rejected ∨ status = .expired) (detail : String) :
    Quiet w (w.setTier3Resolution env actionId clientId status detail none none) :=
  call w.tick ⟨hst, rfl, rfl⟩

theorem close (w : World) (exit : Exit) (now : ℤ) (outcome : Outcome) (reason : String)
    {status : ResolutionStatus} (hst : status = .rejected ∨ status = .expired) (detail : String)
    (p : Tier3PendingAction) : Quiet w (w.close env exit now outcome reason status detail p) :=
  (call (c := .popped exit now p) w trivial).trans
    ((recordTier3Event _ _ _ _ _ _ _).trans (setTier3Resolution _ _ _ (.inr hst) _))

theorem foldl_close (exit : Exit) (now : ℤ) (outcome : Outcome) (reason : String)
    {status : ResolutionStatus} (hst : status = .rejected ∨ status = .expired) (detail : String)
    (ps : List Tier3PendingAction) (w : World) :
    Quiet w (ps.foldl (World.close env exit now outcome reason status detail) w) := by
  induction ps generalizing w with
  | nil => exact refl w
  | cons p ps ih => exact (close w exit now outcome reason hst detail p).trans (ih _)

theorem prune (w : World) : Quiet w (w.pruneTier3Pending env) :=
  foldl_close _ _ _ _ (.inr rfl) _ _ w.tick

theorem reserveOrQueue (w : World) (o : Order) (limit : ℕ) : Quiet w (w.reserveOrQueue env o limit).1 := by
  have hprune : Quiet w (w.tick.pruneTier3Pending env) := prune w.tick
  rcases w.reserveOrQueue_cases env o limit with ⟨-, heq⟩ | ⟨-, -, heq⟩ | ⟨-, -, reason, heq⟩ <;> rw [heq]
  · exact reserve w.tick ..
  · exact hprune
  · generalize w.tick.pruneTier3Pending env = v at *
    have hqueue : Quiet v (v.queueTier3Action env o) := call v.tick trivial
    exact hprune.trans (hqueue.trans ((recordTier3Event _ _ _ _ _ _ _).trans
      (setTier3Resolution _ _ _ (.inl rfl) _)))

theorem approveTier3Action (w : World) (a : String) : Quiet w (w.approveTier3Action env a).1 := by
  rcases w.approveTier3Action_cases env a with heq | ⟨p, heq⟩ | ⟨p, -, heq⟩ <;> rw [heq]
  · exact prune w
  · exact (prune w).trans (close _ _ _ _ _ (.inl rfl) _ _)
  · have hpop : Quiet _ ((w.pruneTier3Pending env).call env (.popped .approve (w.now env) p)) := call _ trivial
    exact (prune w).trans (hpop.trans (reserve (World.tick _) ..))

theorem rejectTier3Action (w : World) (a : String) : Quiet w (w.rejectTier3Action env a).1 := by
  unfold World.rejectTier3Action
  simp only
  split
  · exact prune w
  · exact (prune w).trans (close _ _ _ _ _ (.inl rfl) _ _)

theorem deleteTier3Grant (w : World) (c : String) : Quiet w (w.deleteTier3Grant env c) :=
  (call (c := .ungranted c) w trivial).trans ((prune _).trans (foldl_close _ _ _ _ (.inl rfl) _ _ _))

end Quiet

/-- A reservation was resolved with the result it was settled with. -/
def Resolves (w w' : World) : Prop :=
  ∃ i h result created r, w.handlers i = some (.settled h result) ∧
    w'.trace = w.trace ++ [.resolved created r] ∧ r.actionId = h.order.actionId ∧
    r.Repeats (settlement h.approvedByHuman result)

/-- Results are told by `_settle_handoff` alone. -/
theorem quiet_or_resolves {env : Env} {w w' : World} {act : Act} (hw : step env w act = some w') :
    Quiet w w' ∨ Resolves w w' := by
  cases act with
  | order i limited headers introspect body =>
    simp only [step] at hw
    split at hw <;> [cases hw; skip]
    split at hw
    · obtain rfl := Option.some.inj hw; exact .inl (.refl w)
    · split at hw <;> obtain rfl := Option.some.inj hw
      · exact .inl ((Quiet.recordTier3Event w _ _ _ _ _ _).goto i _)
      · exact .inl (.refl w)
  | readLimit i actionId =>
    simp only [step] at hw
    split at hw <;> [rename_i c body hi; cases hw]
    split at hw
    · obtain rfl := Option.some.inj hw; exact .inl (.refl w)
    · split at hw <;> [skip; cases hw]
      obtain rfl := Option.some.inj hw
      exact .inl ((Quiet.call (c := .minted ⟨actionId, c, body⟩) w trivial).goto i _)
  | reserve i =>
    simp only [step] at hw
    split at hw <;> [skip; cases hw]
    obtain rfl := Option.some.inj hw
    exact .inl ((Quiet.reserveOrQueue w _ _).goto i _)
  | turnAway i =>
    simp only [step] at hw
    split at hw <;> [skip; cases hw]
    obtain rfl := Option.some.inj hw
    exact .inl ((Quiet.recordTier3Event w _ _ _ _ _ _).goto i _)
  | answerQueued i =>
    simp only [step] at hw
    split at hw <;> [skip; cases hw]
    split at hw <;> obtain rfl := Option.some.inj hw <;> exact .inl (.refl w)
  | handOff i =>
    simp only [step] at hw
    split at hw <;> [rename_i h hi; cases hw]
    obtain rfl := Option.some.inj hw
    exact .inl ((Quiet.call (c := .handedOff h.order.actionId) w trivial).goto i _)
  | settle i result =>
    simp only [step] at hw
    split at hw <;> [rename_i h result hi; skip; cases hw] <;> obtain rfl := Option.some.inj hw
    · exact .inl ((Quiet.call (c := .settled h.order.actionId h.approvedByHuman result) w trivial).goto i _)
    · exact .inl (.refl w)
  | resolve i =>
    simp only [step] at hw
    split at hw <;> [rename_i h result hi; cases hw]
    obtain rfl := Option.some.inj hw
    exact .inr ⟨i, h, result, _, _, hi, rfl, rfl, ⟨rfl, rfl, rfl, rfl⟩⟩
  | approve i actionId =>
    simp only [step] at hw
    split at hw <;> [skip; cases hw]
    obtain rfl := Option.some.inj hw
    exact .inl ((Quiet.approveTier3Action w actionId).goto i _)
  | reject i actionId =>
    simp only [step] at hw
    split at hw <;> [skip; cases hw]
    obtain rfl := Option.some.inj hw
    exact .inl ((Quiet.rejectTier3Action w actionId).goto i _)
  | putGrant c limit =>
    obtain rfl := Option.some.inj hw
    exact .inl (Quiet.call (c := .granted c limit) w trivial)
  | deleteGrant c =>
    obtain rfl := Option.some.inj hw
    exact .inl (.deleteTier3Grant w c)
  | listApprovals =>
    obtain rfl := Option.some.inj hw
    exact .inl (.prune w)
  | poll i limited headers introspect actionId =>
    simp only [step] at hw
    split at hw <;> [cases hw; skip]
    split at hw
    · obtain rfl := Option.some.inj hw; exact .inl (.refl w)
    · split at hw <;> obtain rfl := Option.some.inj hw
      · exact .inl (.refl w)
      · exact .inl ((Quiet.prune w).goto i _)
  | pollRead i =>
    simp only [step] at hw
    split at hw <;> [rename_i c a hi; cases hw]
    have hlooked : Quiet w (w.tick.call env (.looked (w.now env) a)) := Quiet.call w.tick trivial
    split at hw
    · split at hw <;> obtain rfl := Option.some.inj hw <;> exact .inl (hlooked.goto i _)
    · obtain rfl := Option.some.inj hw; exact .inl (hlooked.goto i _)

theorem Delivered.step {env : Env} {w w' : World} {act : Act} (hd : Delivered env.toTier3Config w.trace)
    (hg : Good env w w.handlers) (hg' : Good env w' w'.handlers) (hw : step env w act = some w') :
    Delivered env.toTier3Config w'.trace := by
  have hlawful := hg'.inv.lawful
  rcases quiet_or_resolves hw with ⟨cs, htrace, hbare⟩ | ⟨i, h, result, created, r, hi, htrace, hid, hrep⟩
  · rw [htrace] at hlawful ⊢
    exact hd.append hlawful hbare
  · have hlife := hg.inv.driven i _ h.order _ hi rfl
    have htold : (Call.resolved created r).Told w.trace :=
      .inr ⟨created, r, h.order, h.approvedByHuman, result, rfl, hid ▸ hlife, hrep⟩
    rw [htrace] at hlawful ⊢
    exact hd.concat hlawful htold

theorem delivered_of_reaches {env : Env} {ok : World → Act → Prop} {w : World}
    (h : Reaches (step env) ok .init w) : Delivered env.toTier3Config w.trace := by
  have hinit : Delivered env.toTier3Config World.init.trace := fun _ _ _ _ hr => by cases hr
  exact (h.invariant (I := fun w => Good env w w.handlers ∧ Delivered env.toTier3Config w.trace) ⟨Good.init, hinit⟩
    fun _ _ _ hI _ hw => ⟨hI.1.step hw, hI.2.step hI.1 (hI.1.step hw) hw⟩).2

/-! ### What a request about an order answers -/

/-- The order that a request has just made up, or taken over from the queue. -/
def Handler.takes : Handler → Option Order
  | limitRead o _ => some o
  | reserved h => some h.order
  | _ => none

/-- An answer about an order, after these calls. -/
inductive Response.Serves (o : Order) (trace : List Call) : Response → Prop
  | settled (h : Handoff) (result : HandoffResult) (ho : h.order = o)
      (hlife : lifeOf o.actionId trace = some (some (o, .resolved h.approvedByHuman result))) :
      Serves o trace (settlementResponse h result)
  | queued (p : Tier3PendingAction) (ho : p.order = o)
      (hlife : lifeOf o.actionId trace = some (some (o, .pending p)) ∨ exitsOf o.actionId trace ≠ []) :
      Serves o trace (.pendingApproval o.actionId (statusPath o.actionId) p.expiresAt)
  | turnedAway (hlife : lifeOf o.actionId trace = some (some (o, .turnedAway))) :
      Serves o trace (.error 403 "too many actions already awaiting approval for this client")
  | failed : Serves o trace .internalServerError

def Handler.Serves (o : Order) (trace : List Call) : Handler → Prop
  | limitRead o' _ => o' = o
  | queued o' => o' = o ∧ ∃ ph, lifeOf o.actionId trace = some (some (o, ph))
  | turningAway clientId body actionId _ status detail =>
    clientId = o.clientId ∧ body = o.body ∧ actionId = some o.actionId ∧ status = 403 ∧
      detail = "too many actions already awaiting approval for this client"
  | reserved h | executing h | settled h _ => h.order = o
  | answered resp => resp.Serves o trace
  | authenticated .. | polling .. => False

theorem Handler.serves_of_takes {x : Handler} {o : Order} (h : x.takes = some o) (trace : List Call) :
    x.Serves o trace := by
  cases x with
  | limitRead | reserved => exact Option.some.inj h
  | _ => cases h

theorem final_resolved {o : Order} {b : Bool} {result : HandoffResult} {c : Call} {ph : ActionPhase} :
    ¬ ActionPhase.Next o (.resolved b result) c ph := by rintro ⟨⟩

theorem final_turnedAway {o : Order} {c : Call} {ph : ActionPhase} :
    ¬ ActionPhase.Next o .turnedAway c ph := by rintro ⟨⟩

section
variable {env : Env} {w w' : World} {act : Act} {trace cs : List Call} {a : String} {o : Order} {i : ℕ}
  {x : Handler} {resp : Response} {p : Tier3PendingAction}

theorem lifeOf_concat {c : Call} {ph : ActionPhase} (hl : Lawful (trace ++ [c])) (hc : c.about = some a)
    (hlife : lifeOf a trace = some (some (o, ph))) :
    ∃ ph', lifeOf a (trace ++ [c]) = some (some (o, ph')) ∧ ActionPhase.Next o ph c ph' := by
  obtain ⟨s, s', hs, hnext, hlife'⟩ := hl.step_of_concat hc
  obtain rfl := Option.some.inj (hlife.symm.trans hs)
  rcases Stage.next_cases hnext with ⟨_, hcontra, -⟩ | ⟨_, _, ph', heq, rfl, hn⟩
  · cases hcontra
  · cases heq
    exact ⟨ph', hlife', hn⟩

theorem lifeOf_append {ph : ActionPhase} (hlife : lifeOf a trace = some (some (o, ph))) (hl : Lawful (trace ++ cs)) :
    ∃ ph', lifeOf a (trace ++ cs) = some (some (o, ph')) := by
  induction cs using List.reverseRecOn with
  | nil => exact ⟨ph, by rwa [List.append_nil]⟩
  | append_singleton cs c ih =>
    rw [← List.append_assoc] at hl ⊢
    obtain ⟨ph', hlife'⟩ := ih hl.of_append
    by_cases hc : c.about = some a
    · obtain ⟨ph'', hlife'', -⟩ := lifeOf_concat hl hc hlife'
      exact ⟨ph'', hlife''⟩
    · exact ⟨ph', (lifeOf_append_of_ne (by simpa using hc)).trans hlife'⟩

theorem pending_or_exits (h : lifeOf a trace = some (some (o, .pending p)) ∨ exitsOf a trace ≠ [])
    (hl : Lawful (trace ++ cs)) :
    lifeOf a (trace ++ cs) = some (some (o, .pending p)) ∨ exitsOf a (trace ++ cs) ≠ [] := by
  induction cs using List.reverseRecOn with
  | nil => rwa [List.append_nil]
  | append_singleton cs c ih =>
    rw [← List.append_assoc] at hl ⊢
    rcases ih hl.of_append with hlife | hexits
    · by_cases hc : c.about = some a
      · obtain ⟨ph', hlife', hn⟩ := lifeOf_concat hl hc hlife
        cases hn
        right
        rw [(summary_of_lifeOf hlife').exits]
        exact List.cons_ne_nil _ _
      · exact .inl ((lifeOf_append_of_ne (by simpa using hc)).trans hlife)
    · right
      rw [exitsOf, callsOf_append, List.filterMap_append]
      exact List.append_ne_nil_of_left_ne_nil hexits _

theorem Response.Serves.mono (h : resp.Serves o trace) (hl : Lawful (trace ++ cs)) : resp.Serves o (trace ++ cs) := by
  cases h with
  | settled h result ho hlife =>
    exact .settled h result ho (lifeOf_of_final hlife (fun _ _ => final_resolved) hl)
  | queued p ho hlife => exact .queued p ho (pending_or_exits hlife hl)
  | turnedAway hlife => exact .turnedAway (lifeOf_of_final hlife (fun _ _ => final_turnedAway) hl)
  | failed => exact .failed

theorem Handler.Serves.mono (h : x.Serves o trace) (hl : Lawful (trace ++ cs)) : x.Serves o (trace ++ cs) := by
  cases x with
  | answered resp => exact Response.Serves.mono h hl
  | queued o' => exact ⟨h.1, h.2.elim fun _ hlife => lifeOf_append hlife hl⟩
  | _ => exact h

/-- The locked block of an order leaves it reserved, queued or about to be turned away. -/
theorem serves_reserveOrQueue (w : World) (limit : ℕ) {ph : ActionPhase}
    (hlife : lifeOf o.actionId trace = some (some (o, ph))) : (w.reserveOrQueue env o limit).2.Serves o trace := by
  unfold World.reserveOrQueue
  simp only
  split
  · rfl
  · split
    · exact ⟨rfl, rfl, rfl, rfl, rfl⟩
    · exact ⟨rfl, ph, hlife⟩

theorem serves_own (hg : Good env w w.handlers) (hg' : Good env w' w'.handlers) (hw : step env w act = some w')
    (hr : act.request? = some i) (hi : w.handlers i = some x) (hx : x.Serves o w.trace) :
    ∃ x', w'.handlers i = some x' ∧ x'.Serves o w'.trace := by
  obtain ⟨cs, hcs⟩ := trace_prefix_of_step hw
  have hself : ∀ {v : World} {y : Handler}, y.Serves o v.trace →
      ∃ x', (v.goto i y).handlers i = some x' ∧ x'.Serves o (v.goto i y).trace :=
    fun {v y} hy => ⟨y, Function.update_self .., hy⟩
  cases act with
  | putGrant | deleteGrant | listApprovals => cases hr
  | order | approve | reject | poll =>
    obtain rfl := Option.some.inj hr
    simp only [step, hi] at hw
    cases hw
  | readLimit =>
    obtain rfl := Option.some.inj hr
    simp only [step, hi] at hw
    split at hw <;> [skip; cases hw]
    rename_i heq
    obtain rfl := Option.some.inj heq
    exact hx.elim
  | pollRead =>
    obtain rfl := Option.some.inj hr
    simp only [step, hi] at hw
    split at hw <;> [skip; cases hw]
    rename_i heq
    obtain rfl := Option.some.inj heq
    exact hx.elim
  | reserve j =>
    obtain rfl : j = i := Option.some.inj hr
    simp only [step, hi] at hw
    split at hw <;> [skip; cases hw]
    rename_i o' limit heq
    obtain rfl := Option.some.inj heq
    obtain rfl := Option.some.inj hw
    obtain rfl : o' = o := hx
    obtain ⟨ph', hlife'⟩ := lifeOf_append (hg.inv.driven j _ o' _ hi rfl) (hcs ▸ hg'.inv.lawful)
    rw [hcs] at hlife'
    exact hself (serves_reserveOrQueue _ _ hlife')
  | turnAway j =>
    obtain rfl : j = i := Option.some.inj hr
    simp only [step, hi] at hw
    split at hw <;> [skip; cases hw]
    rename_i heq
    obtain rfl := Option.some.inj heq
    obtain rfl := Option.some.inj hw
    obtain ⟨rfl, rfl, rfl, rfl, rfl⟩ := hx
    have hlife := hg.inv.driven j _ o .minted hi rfl
    obtain ⟨ph', hlife', hn⟩ := lifeOf_concat hg'.inv.lawful rfl hlife
    cases hn
    exact hself (.turnedAway hlife')
  | answerQueued =>
    obtain rfl := Option.some.inj hr
    simp only [step, hi] at hw
    split at hw <;> [skip; cases hw]
    rename_i o' heq
    obtain rfl := Option.some.inj heq
    obtain ⟨rfl, ph, hlife⟩ := hx
    split at hw <;> obtain rfl := Option.some.inj hw
    · rename_i p hp
      have hpending := hg.pending_iff.1 hp
      have horder : p.order = o' := by
        rw [hlife] at hpending
        exact (congrArg Prod.fst (Option.some.inj (Option.some.inj hpending))).symm
      exact hself (.queued p horder (.inl (horder ▸ hpending)))
    · exact hself .failed
  | handOff =>
    obtain rfl := Option.some.inj hr
    simp only [step, hi] at hw
    split at hw <;> [skip; cases hw]
    rename_i heq
    obtain rfl := Option.some.inj heq
    obtain rfl := Option.some.inj hw
    exact hself hx
  | settle =>
    obtain rfl := Option.some.inj hr
    simp only [step, hi] at hw
    split at hw <;> [skip; skip; cases hw] <;> rename_i heq <;> obtain rfl := Option.some.inj heq <;>
      obtain rfl := Option.some.inj hw
    · exact hself hx
    · exact hself .failed
  | resolve j =>
    obtain rfl : j = i := Option.some.inj hr
    simp only [step, hi] at hw
    split at hw <;> [skip; cases hw]
    rename_i h result heq
    obtain rfl := Option.some.inj heq
    obtain rfl := Option.some.inj hw
    obtain rfl : h.order = o := hx
    have hlife := hg.inv.driven j _ h.order _ hi rfl
    obtain ⟨ph', hlife', hn⟩ := lifeOf_concat hg'.inv.lawful rfl hlife
    cases hn
    exact hself (.settled h result rfl hlife')

/-- A request that has taken up an order keeps to it. -/
theorem serves_step (hg : Good env w w.handlers) (hg' : Good env w' w'.handlers) (hw : step env w act = some w')
    (hi : w.handlers i = some x) (hx : x.Serves o w.trace) :
    ∃ x', w'.handlers i = some x' ∧ x'.Serves o w'.trace := by
  obtain ⟨cs, hcs⟩ := trace_prefix_of_step hw
  by_cases hr : act.request? = some i
  · exact serves_own hg hg' hw hr hi hx
  · refine ⟨x, (handlers_step_of_ne hw hr).trans hi, ?_⟩
    rw [← hcs]
    exact hx.mono (hcs ▸ hg'.inv.lawful)

theorem serves_of_reaches {ok : World → Act → Prop} (hg : Good env w w.handlers) (hi : w.handlers i = some x)
    (hx : x.takes = some o) (h : Reaches (step env) ok w w') :
    ∃ x', w'.handlers i = some x' ∧ x'.Serves o w'.trace := by
  refine (h.invariant (I := fun w' => Good env w' w'.handlers ∧ ∃ x', w'.handlers i = some x' ∧ x'.Serves o w'.trace)
    ⟨hg, x, hi, Handler.serves_of_takes hx _⟩ fun w₁ _ w₂ hI _ hw => ?_).2
  obtain ⟨hg₁, x', hi', hx'⟩ := hI
  exact ⟨hg₁.step hw, serves_step hg₁ (hg₁.step hw) hw hi' hx'⟩

end

/-! ### Agreement -/

/-- What a resolution and the newest row of its action say of each other. -/
def Tier3Resolution.Matches (r : Tier3Resolution) (e : Tier3Event) : Prop :=
  e.clientId = r.clientId ∧
  match r.status with
  | .queued => r.channel = none ∧ r.orderNumber = none
  | .executed => e.outcome = .accepted ∧ ∃ channel n, r.channel = some channel ∧
      r.detail = s!"executed via {channel}" ∧ r.orderNumber = some n ∧ e.orderNumber = some n
  | .executionUnknown => e.outcome = .accepted ∧ r.orderNumber = none ∧ e.orderNumber = none
  | .failed | .rejected => e.outcome = .rejected ∧ r.orderNumber = none ∧ e.orderNumber = none
  | .expired => e.outcome = .expired ∧ r.orderNumber = none ∧ e.orderNumber = none

/-- What the resolution and the newest row of an order say, where they are left, when it was answered so. -/
inductive Response.Agrees (w : World) (o : Order) : Response → Prop
  /-- 200, 502 or 503: both say what the handoff was settled with. -/
  | settled (h : Handoff) (result : HandoffResult) (ho : h.order = o)
      (resolution : ∀ r, w.store.tier3Resolutions.get? o.actionId = some r →
        r.clientId = o.clientId ∧ r.Repeats (settlement h.approvedByHuman result))
      (row : ∀ e, newestRow o.actionId w.store.tier3Events = some e →
        e.Settles o (settlement h.approvedByHuman result)) :
      Agrees w o (settlementResponse h result)
  /-- 202: the order still waits, until the time it was told, and both say so, -/
  | waiting (p : Tier3PendingAction) (ho : p.order = o) (hp : w.store.tier3Pending.get? o.actionId = some p)
      (resolution : ∀ r, w.store.tier3Resolutions.get? o.actionId = some r → r.IsOf o .queued)
      (row : ∀ e, newestRow o.actionId w.store.tier3Events = some e → e.IsOf o .queued) :
      Agrees w o (.pendingApproval o.actionId (statusPath o.actionId) p.expiresAt)
  /-- or it has left the queue. -/
  | left (expiresAt : ℤ) (h : exitsOf o.actionId w.trace ≠ []) :
      Agrees w o (.pendingApproval o.actionId (statusPath o.actionId) expiresAt)
  | turnedAway (resolution : w.store.tier3Resolutions.get? o.actionId = none)
      (row : ∀ e, newestRow o.actionId w.store.tier3Events = some e → e.IsOf o .rejected) :
      Agrees w o (.error 403 "too many actions already awaiting approval for this client")
  /-- An uncaught exception says nothing. -/
  | failed : Agrees w o .internalServerError

/-- What the audit trail, the resolutions and the answers promise of each other in a state `w`. -/
structure BooksAgree (env : Env) (w : World) : Prop where
  /-- The newest row that is left matches the resolution that is left. -/
  agree : ∀ a r e, w.store.tier3Resolutions.get? a = some r →
    newestRow a w.store.tier3Events = some e → r.Matches e
  /-- What is said to be queued waits in the queue, or was approved. -/
  waiting : ∀ a r, w.store.tier3Resolutions.get? a = some r → r.status = .queued →
    a ∈ w.store.tier3Pending.keys ∨ exitsOf a w.trace = [.approve]
  /-- A request that works on an order from now on answers what both say of it, then and ever after. -/
  answered : ∀ i x o w' resp, w.handlers i = some x → x.takes = some o → Reaches (step env) anyAct w w' →
    w'.handlers i = some (.answered resp) → resp.Agrees w' o
  /-- After a terminal resolution neither is written to again. -/
  final : ∀ a r w', w.store.tier3Resolutions.get? a = some r → r.status ≠ .queued →
    Reaches (step env) anyAct w w' →
      (∀ r', w'.store.tier3Resolutions.get? a = some r' → r' = r) ∧
      ∀ e e', newestRow a w.store.tier3Events = some e → newestRow a w'.store.tier3Events = some e' →
        e' = e

section
variable {trace cs : List Call} {a : String} {o : Order} {ph : ActionPhase} {r : Tier3Resolution}
  {e : Tier3Event}

theorem not_about_of_final (hlife : lifeOf a trace = some (some (o, ph)))
    (hfinal : ∀ c ph', ¬ ActionPhase.Next o ph c ph') (h : Lawful (trace ++ cs)) :
    ∀ c ∈ cs, c.about ≠ some a := by
  intro c hc ha
  obtain ⟨cs₁, cs₂, rfl⟩ := List.append_of_mem hc
  rw [List.append_cons, ← List.append_assoc, ← List.append_assoc] at h
  have hlast := h.of_append
  obtain ⟨s, s', hs, hnext, -⟩ := hlast.step_of_concat ha
  obtain rfl := Option.some.inj ((lifeOf_of_final hlife hfinal hlast.of_append).symm.trans hs)
  rcases Stage.next_cases hnext with ⟨_, hcontra, -⟩ | ⟨_, _, ph', heq, -, hn⟩
  · cases hcontra
  · cases heq
    exact hfinal c ph' hn

theorem newestRow_history_append (h : ∀ c ∈ cs, c.about ≠ some a) :
    newestRow a (history (auditCalls (trace ++ cs))) = newestRow a (history (auditCalls trace)) := by
  induction cs using List.reverseRecOn with
  | nil => rw [List.append_nil]
  | append_singleton cs c ih =>
    rw [← List.append_assoc, newestRow_history_of_ne (h c (by simp)), ih fun d hd => h d (by simp [hd])]

theorem Tier3Event.IsOf.orderNumber_eq {outcome : Outcome} (h : e.IsOf o outcome) :
    e.orderNumber = none := congrArg Tier3Event.orderNumber h

theorem ActionPhase.Row.clientId_eq (h : ph.Row o e) : e.clientId = o.clientId := by
  cases ph with
  | minted | entering => exact h.elim
  | _ => exact congrArg Tier3Event.clientId h

theorem matches_of_phase {st : ResolutionStatus} (hst : ph.status? = some st) (hr : r.IsOf o st)
    (htells : ph.Says r) (hrow : ph.Row o e) : r.Matches e := by
  refine ⟨hrow.clientId_eq.trans hr.2.1.symm, ?_⟩
  rw [hr.2.2]
  cases ph with
  | minted | turnedAway | entering | entered => cases hst
  | pending | leaving | closing =>
    obtain rfl := Option.some.inj hst
    exact htells
  | reserved b | executing b | settled b =>
    cases b with
    | false => cases hst
    | true =>
      obtain rfl := Option.some.inj hst
      exact htells
  | left exit =>
    obtain rfl := Option.some.inj hst
    have hrow : e.IsOf o exit.outcome := hrow
    cases exit <;> exact ⟨hrow.outcome_eq, htells.2, hrow.orderNumber_eq⟩
  | resolved b result =>
    obtain rfl := Option.some.inj hst
    have houtcome : e.outcome = (settlement b result).outcome := congrArg Tier3Event.outcome hrow
    have hnumber : e.orderNumber = (settlement b result).orderNumber :=
      congrArg Tier3Event.orderNumber hrow
    obtain ⟨-, hdetail, hchannel, hno⟩ := htells
    cases result with
    | executed channel decidedBy n => exact ⟨houtcome, channel, n, hchannel, hdetail, hno, hnumber⟩
    | _ => exact ⟨houtcome, hno, hnumber⟩

end

section
variable {env : Env} {w : World} {a : String} {r : Tier3Resolution} {e : Tier3Event}

theorem phase_of_resolution (hg : Good env w w.handlers) (hd : Delivered env.toTier3Config w.trace)
    (hr : w.store.tier3Resolutions.get? a = some r) : ∃ o ph st,
      lifeOf a w.trace = some (some (o, ph)) ∧ ph.status? = some st ∧ r.IsOf o st ∧ ph.Says r := by
  obtain ⟨s, hs⟩ := hg.inv.lawful.life a
  rw [hg.store_eq] at hr
  obtain ⟨o, ph, st, rfl, hst, hof⟩ := resolution_storeAfter hg.inv.lawful hs hr
  exact ⟨o, ph, st, hs, hst, hof, hd a _ r hs hr⟩

theorem newestRow_history_of_store (hg : Good env w w.handlers) (ht : Timed env w)
    (he : newestRow a w.store.tier3Events = some e) :
    newestRow a (history (auditCalls w.trace)) = some e := by
  rw [hg.store_eq, tier3Events_storeAfter] at he
  exact newestRow_of_replay hg.inv.lawful ht.sorted he

theorem agrees_of_serves (hg : Good env w w.handlers) (hd : Delivered env.toTier3Config w.trace)
    (ht : Timed env w) {resp : Response} (h : resp.Serves o w.trace) : resp.Agrees w o := by
  have hrow : ∀ {ph e}, lifeOf o.actionId w.trace = some (some (o, ph)) →
      newestRow o.actionId w.store.tier3Events = some e → ph.Row o e := fun hlife he =>
    row_history hlife (newestRow_history_of_store hg ht he)
  have hfound : ∀ {ph r}, lifeOf o.actionId w.trace = some (some (o, ph)) →
      w.store.tier3Resolutions.get? o.actionId = some r →
        ∃ st, ph.status? = some st ∧ r.IsOf o st ∧ ph.Says r := by
    intro ph r hlife hr
    obtain ⟨o', ph', st, hlife', hst, hof, hsays⟩ := phase_of_resolution hg hd hr
    cases hlife.symm.trans hlife'
    exact ⟨st, hst, hof, hsays⟩
  cases h with
  | settled h result ho hlife =>
    refine .settled h result ho (fun r hr => ?_) fun e he => hrow hlife he
    obtain ⟨st, -, hof, hsays⟩ := hfound hlife hr
    exact ⟨hof.2.1, hsays⟩
  | queued p ho hlife =>
    rcases hlife with hlife | hexits
    · refine .waiting p ho (hg.pending_iff.2 (by rw [hlife, ho])) (fun r hr => ?_) fun e he => hrow hlife he
      obtain ⟨st, hst, hof, -⟩ := hfound hlife hr
      obtain rfl := Option.some.inj hst
      exact hof
    · exact .left _ hexits
  | turnedAway hlife =>
    refine .turnedAway (Option.eq_none_iff_forall_not_mem.2 fun r hr => ?_) fun e he => hrow hlife he
    obtain ⟨st, hst, -⟩ := hfound hlife hr
    cases hst
  | failed => exact .failed

end

/-- In every state of every run the audit trail, the resolutions and the answers agree. -/
theorem booksAgree_of_reaches (env : Env) (w : World) (h : Reaches (step env) anyAct .init w) :
    BooksAgree env w := by
  have hg := good_of_reaches h
  have hd := delivered_of_reaches h
  have htimed := timed_of_reaches h
  refine ⟨fun a r e hr he => ?_, fun a r hr hqueued => ?_, fun i x o w' resp hi hx hreach hanswer => ?_,
    fun a r w' hr hne hreach => ?_⟩
  · obtain ⟨o, ph, st, hlife, hst, hof, htells⟩ := phase_of_resolution hg hd hr
    exact matches_of_phase hst hof htells (row_history hlife (newestRow_history_of_store hg htimed he))
  · obtain ⟨o, ph, st, hlife, hst, hof, -⟩ := phase_of_resolution hg hd hr
    obtain rfl : st = .queued := hof.2.2.symm.trans hqueued
    have hexits := (summary_of_lifeOf hlife).exits
    have hrest := hg.inv.rest a o ph hlife
    cases ph with
    | minted | turnedAway => cases hst
    | entering | entered | leaving | closing => exact hrest.elim
    | pending p =>
      obtain rfl := entry_order_of_lifeOf hlife (p := p) rfl
      exact .inl (Dict.mem_keys_iff.2 ⟨p, hg.pending_iff.2 hlife⟩)
    | left exit => exact absurd (Option.some.inj hst) exit.status_ne_queued
    | reserved b | executing b | settled b =>
      cases b with
      | false => cases hst
      | true => exact .inr hexits
    | resolved b result => exact absurd (Option.some.inj hst) (settlement_status_ne_queued b result)
  · obtain ⟨y, hy, hserves⟩ := serves_of_reaches hg hi hx hreach
    obtain rfl : y = .answered resp := Option.some.inj (hy.symm.trans hanswer)
    have h' := h.trans hreach
    exact agrees_of_serves (good_of_reaches h') (delivered_of_reaches h') (timed_of_reaches h') hserves
  · obtain ⟨o, ph, st, hlife, hst, hof, -⟩ := phase_of_resolution hg hd hr
    have hfinal := final_of_status (o := o) hst (hof.2.2 ▸ hne)
    have hg' := good_of_reaches (h.trans hreach)
    obtain ⟨cs, hcs⟩ := trace_prefix_of_reaches hreach
    have habout := not_about_of_final hlife hfinal (hcs ▸ hg'.inv.lawful)
    refine ⟨fun r' hr' => ?_, fun e e' he he' => ?_⟩
    · rw [hg'.store_eq, ← hcs] at hr'
      have hold := get?_resolutions_append habout hr'
      rw [← hg.store_eq, hr] at hold
      exact (Option.some.inj hold).symm
    · have he' := newestRow_history_of_store hg' (timed_of_reaches (h.trans hreach)) he'
      rw [← hcs, newestRow_history_append habout, newestRow_history_of_store hg htimed he] at he'
      exact (Option.some.inj he').symm

/-- An order over the mandate: approved by a human, executed and answered. -/
def executedActs : List Act :=
  approvedActs ++ [.settle 1 (.ok (.executed "erp" "rules" "PO-1")), .resolve 1]

theorem booksAgree_of_reaches_executed : ∃ w,
    (w.store.tier3Resolutions.get? "act-1").map Tier3Resolution.orderNumber = some (some "PO-1") ∧
    BooksAgree (.ticking ⟨100, 50, 100, 10, 100, 50⟩) w := by
  obtain ⟨w, hw, hp⟩ := exists_reaches_of_run (step (.ticking ⟨100, 50, 100, 10, 100, 50⟩)) anyAct .init
    executedActs (fun w => decide
      ((w.store.tier3Resolutions.get? "act-1").map Tier3Resolution.orderNumber = some (some "PO-1")))
    (fun _ _ _ => trivial) (by decide)
  exact ⟨w, of_decide_eq_true hp, booksAgree_of_reaches _ w hw⟩

end Embassy
