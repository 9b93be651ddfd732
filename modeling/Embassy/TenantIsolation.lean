import Embassy.AuditResidual
import Embassy.Mandate
import Embassy.Tier3Books

/-!
# One partner does not see another

`callsBy c` keeps the calls of a trace that are about client `c`: those about its actions, its grant and
its polls. They are lawful on their own, and replaying them alone gives `c` the same grant, the same
queue and the same audit rows in the window (`grants_filter_isOf`, `queueOf_filter_isOf`,
`recentRows_filter_isOf`).
So two runs that agree on `c`'s own calls, whatever other partners did in between, look the same to `c`
and decide its next order alike (`sameView_of_reaches`).
-/

namespace Embassy
open Lib

def Call.order? : Call → Option Order
  | minted o => some o
  | _ => none

def ordered (c : String) (trace : List Call) (a : String) : Bool :=
  (trace.filterMap Call.order?).any fun o => o.clientId = c ∧ o.actionId = a

/-- Whose a call about no action is. -/
def Call.isIdleOf (c : String) (owns : String → Bool) : Call → Bool
  | recorded e | reserved _ e => e.clientId = c
  | looked _ a => owns a
  | granted c' _ | ungranted c' => c' = c
  | _ => false

/-- The call is about one of the client's actions or its grant, polls one of its actions, or rejects an
order of its that got no action id. -/
def Call.isOf (c : String) (owns : String → Bool) (call : Call) : Bool :=
  call.about.elim (call.isIdleOf c owns) owns

/-- The client's own calls. -/
def callsBy (c : String) (trace : List Call) : List Call :=
  trace.filter (Call.isOf c (ordered c trace))

/-- Whether a resolution had an entry before is not told apart: entries go when others' push them out. -/
def Call.unmarked : Call → Call
  | resolved _ r => resolved false r
  | call => call

/-- The client's queue entries, oldest first. -/
def queueOf (c : String) (d : Dict String Tier3PendingAction) : List (String × Tier3PendingAction) :=
  d.entries.filter fun e => e.2.clientId = c

/-- `owns` holds of the client's actions in the trace. -/
def OwnsOf (c : String) (owns : String → Bool) (trace : List Call) : Prop :=
  ∀ a o ph, lifeOf a trace = some (some (o, ph)) → (owns a ↔ o.clientId = c)

section
variable {cfg : Tier3Config} {trace cs : List Call} {call : Call} {a c : String} {o : Order}
  {ph : ActionPhase} {owns : String → Bool}

/-- The order an action in this stage was minted with. -/
def Stage.Minted (cs : List Call) (s : Stage) : Prop :=
  ∀ o ph, s = some (o, ph) → ∀ o', Call.minted o' ∈ cs ↔ o' = o

/-- An action that was spoken of was minted, once. -/
theorem minted_mem_iff (h : lifeOf a trace = some (some (o, ph))) {o' : Order} :
    .minted o' ∈ callsOf a trace ↔ o' = o := by
  have hall : Stage.Minted (callsOf a trace) (some (o, ph)) := by
    refine lifeOf_induct (P := Stage.Minted) h ?_ ?_ ?_
    · intro _ _ h
      cases h
    · intro o _ o' ph h o''
      cases h
      simp
    · intro cs o ph c ph' _ ih hn o' ph'' h o''
      cases h
      rw [List.mem_append, ih o ph rfl o'', List.mem_singleton]
      constructor
      · rintro (rfl | rfl)
        · rfl
        · cases hn
      · exact .inl
  exact hall o ph rfl o'

theorem ownsOf_ordered (c : String) (trace : List Call) : OwnsOf c (ordered c trace) trace := by
  intro a o ph hlife
  have hid := order_of_lifeOf hlife
  constructor
  · intro hany
    obtain ⟨o', ho', hp⟩ := List.any_eq_true.1 hany
    obtain ⟨rfl, rfl⟩ := of_decide_eq_true hp
    obtain ⟨call, hcall, hmint⟩ := List.mem_filterMap.1 ho'
    obtain rfl : call = .minted o' := by cases call <;> cases hmint; rfl
    rw [(minted_mem_iff hlife).1 (List.mem_filter.2 ⟨hcall, by simp [Call.about]⟩)]
  · rintro rfl
    have hmem : Call.minted o ∈ callsOf a trace := (minted_mem_iff hlife).2 rfl
    exact List.any_eq_true.2 ⟨o, List.mem_filterMap.2 ⟨_, List.mem_of_mem_filter hmem, rfl⟩, by simp [hid]⟩

theorem Stage.order_of_next {s s' : Stage} (h : s.next call = some s') :
    ∃ o ph, s' = some (o, ph) ∧ ∀ o' ph', s = some (o', ph') → o' = o := by
  rcases Stage.next_cases h with ⟨o, rfl, -, rfl⟩ | ⟨o, ph, ph', rfl, rfl, -⟩
  · exact ⟨o, _, rfl, fun _ _ h => by cases h⟩
  · exact ⟨o, ph', rfl, fun _ _ h => by cases h; rfl⟩

theorem OwnsOf.of_concat (hl : Lawful (trace ++ [call])) (h : OwnsOf c owns (trace ++ [call])) :
    OwnsOf c owns trace := by
  intro a o ph hlife
  by_cases hc : call.about = some a
  · obtain ⟨s, s', hs, hnext, hs'⟩ := hl.step_of_concat hc
    obtain ⟨o', ph', rfl, hsame⟩ := Stage.order_of_next hnext
    obtain rfl := hsame o ph (Option.some.inj (hs.symm.trans hlife))
    exact h a _ ph' hs'
  · exact h a o ph (by rwa [lifeOf_append_of_ne (by simpa using hc)])

theorem OwnsOf.isOf_concat (hl : Lawful (trace ++ [call])) (h : OwnsOf c owns (trace ++ [call]))
    (hc : call.about = some a) : ∃ s o ph, lifeOf a trace = some s ∧ s.next call = some (some (o, ph)) ∧
      o.actionId = a ∧ (call.isOf c owns ↔ o.clientId = c) := by
  obtain ⟨s, s', hs, hnext, hs'⟩ := hl.step_of_concat hc
  obtain ⟨o, ph, rfl, -⟩ := Stage.order_of_next hnext
  refine ⟨s, o, ph, hs, hnext, order_of_lifeOf hs', ?_⟩
  rw [Call.isOf, hc]
  exact h a o ph hs'

theorem callsOf_filter_isOf (h : owns a) : callsOf a (trace.filter (Call.isOf c owns)) = callsOf a trace := by
  rw [callsOf, List.filter_filter]
  refine List.filter_congr fun call _ => ?_
  by_cases hc : call.about = some a
  · simp [Call.isOf, hc, h]
  · simp [hc]

theorem callsOf_filter_isOf_of_not (h : ¬ owns a) : callsOf a (trace.filter (Call.isOf c owns)) = [] := by
  rw [callsOf, List.filter_filter, List.filter_eq_nil_iff]
  intro call _ hp
  obtain ⟨hc, hof⟩ := Bool.and_eq_true_iff.1 hp
  rw [Call.isOf, of_decide_eq_true hc] at hof
  exact h hof

theorem lifeOf_filter_isOf (h : owns a) :
    lifeOf a (trace.filter (Call.isOf c owns)) = lifeOf a trace := by
  rw [lifeOf, callsOf_filter_isOf h, lifeOf]

theorem Lawful.filter_isOf (h : Lawful trace) : Lawful (trace.filter (Call.isOf c owns)) := by
  refine ⟨fun a => ?_, fun call hc => h.idle call (List.mem_of_mem_filter hc)⟩
  by_cases ha : owns a
  · rw [lifeOf_filter_isOf ha]
    exact h.life a
  · exact ⟨none, by rw [lifeOf, callsOf_filter_isOf_of_not ha]; rfl⟩

theorem storeAfter_filter_concat (p : Call → Bool) :
    storeAfter cfg ((trace ++ [call]).filter p) =
      if p call then call.apply cfg (storeAfter cfg (trace.filter p)) else storeAfter cfg (trace.filter p) := by
  rw [List.filter_append, List.filter_singleton]
  cases p call with
  | true => exact storeAfter_concat
  | false => rw [cond_false, List.append_nil]; rfl

theorem grants_filter_isOf (owns : String → Bool) (trace : List Call) :
    (storeAfter cfg (trace.filter (Call.isOf c owns))).tier3Grants.get? c =
      (storeAfter cfg trace).tier3Grants.get? c := by
  induction trace using List.reverseRecOn with
  | nil => rfl
  | append_singleton trace call ih =>
    rw [storeAfter_filter_concat, storeAfter_concat]
    cases call with
    | granted c' limit =>
      by_cases hc : c' = c
      · simp [Call.isOf, Call.about, Call.isIdleOf, Call.apply, hc]
      · simpa [Call.isOf, Call.about, Call.isIdleOf, Call.apply, hc, Dict.get?_set_of_ne _ _ (Ne.symm hc)]
          using ih
    | ungranted c' =>
      by_cases hc : c' = c
      · simp [Call.isOf, Call.about, Call.isIdleOf, Call.apply, hc]
      · simpa [Call.isOf, Call.about, Call.isIdleOf, Call.apply, hc, Dict.get?_erase_of_ne _ (Ne.symm hc)]
          using ih
    | _ => split <;> exact ih

theorem queueOf_erase (d : Dict String Tier3PendingAction) (a : String) :
    queueOf c (d.erase a) = (queueOf c d).filter fun e => e.1 ≠ a := by
  rw [queueOf, queueOf, Dict.entries_erase, List.filter_filter, List.filter_filter]
  exact List.filter_congr fun e _ => Bool.and_comm ..

theorem queueOf_set {d : Dict String Tier3PendingAction} (h : d.get? a = none) (p : Tier3PendingAction) :
    queueOf c (d.set a p) = queueOf c d ++ if p.clientId = c then [(a, p)] else [] := by
  rw [queueOf, Dict.entries_set_of_not_mem d p (Dict.get?_eq_none_iff.1 h), List.filter_append]
  by_cases hc : p.clientId = c <;> simp [queueOf, hc]

theorem clientId_of_pending (h : Lawful trace) (hlife : lifeOf a trace = some (some (o, ph)))
    {p : Tier3PendingAction} (hp : (storeAfter cfg trace).tier3Pending.get? a = some p) :
    p.clientId = o.clientId := by
  obtain ⟨ph', hlife', -⟩ := (pending_storeAfter h).1 hp
  cases hlife.symm.trans hlife'
  rfl

theorem queueOf_filter_isOf (h : Lawful trace) (howns : OwnsOf c owns trace) :
    queueOf c (storeAfter cfg (trace.filter (Call.isOf c owns))).tier3Pending =
      queueOf c (storeAfter cfg trace).tier3Pending := by
  induction trace using List.reverseRecOn with
  | nil => rfl
  | append_singleton trace call ih =>
    have ih := ih h.of_append (howns.of_concat h)
    rw [storeAfter_filter_concat, storeAfter_concat]
    cases call with
    | queued p =>
      obtain ⟨s, o, ph, hs, hnext, -, hof⟩ := howns.isOf_concat h (a := p.actionId) rfl
      rcases Stage.next_cases hnext with ⟨_, -, hcontra, -⟩ | ⟨_, _, _, rfl, heq, hn⟩
      · cases hcontra
      · cases heq
        cases hn with
        | enqueue ho =>
          have hnone : (storeAfter cfg trace).tier3Pending.get? p.actionId = none :=
            get?_pending h.of_append hs
          simp only [Call.apply]
          rw [queueOf_set hnone]
          by_cases hc : (Call.queued p).isOf c owns
          · have hlife : lifeOf p.actionId (trace.filter (Call.isOf c owns)) = _ :=
              (lifeOf_filter_isOf hc).trans hs
            rw [if_pos hc, ← ih]
            exact queueOf_set (get?_pending h.of_append.filter_isOf hlife) p
          · have hcp : p.clientId ≠ c := fun hp => hc (hof.2 (ho ▸ hp))
            rw [if_neg hc, if_neg hcp, List.append_nil, ih]
    | popped exit now p =>
      obtain ⟨s, o, ph, hs, hnext, -, hof⟩ := howns.isOf_concat h (a := p.actionId) rfl
      simp only [Call.apply]
      rw [queueOf_erase]
      by_cases hc : (Call.popped exit now p).isOf c owns
      · rw [if_pos hc, queueOf_erase, ih]
      · rw [if_neg hc, ih, eq_comm, List.filter_eq_self]
        intro e he
        obtain ⟨he, hec⟩ := List.mem_filter.1 he
        refine decide_eq_true fun hea => hc (hof.2 ?_)
        have hget := Dict.mem_entries_iff.1 he
        rw [hea] at hget
        rcases Stage.next_cases hnext with ⟨_, -, hcontra, -⟩ | ⟨_, _, _, rfl, heq, -⟩
        · cases hcontra
        · cases heq
          exact (clientId_of_pending h.of_append hs hget).symm.trans (of_decide_eq_true hec)
    | _ => split <;> exact ih

theorem filter_concat_eq (p : Call → Bool) :
    (trace ++ [call]).filter p = if p call then trace.filter p ++ [call] else trace.filter p := by
  rw [List.filter_append, List.filter_singleton]
  cases p call <;> simp

theorem isOf_event_iff (h : Lawful (trace ++ [call])) (howns : OwnsOf c owns (trace ++ [call]))
    {e : Tier3Event} (he : call.event? = some e) : call.isOf c owns ↔ e.clientId = c := by
  have habout := Call.about_of_event he
  cases ha : e.actionId with
  | none =>
    rw [Call.isOf, habout, ha]
    cases call <;> cases he <;> simp [Call.isIdleOf]
  | some a =>
    obtain ⟨s, o, ph, hs, hnext, -, hof⟩ := howns.isOf_concat h (habout.trans ha)
    rcases Stage.next_cases hnext with ⟨_, -, rfl, -⟩ | ⟨_, _, _, rfl, heq, hn⟩
    · cases he
    · cases heq
      have hclient : e.clientId = o.clientId := congrArg Tier3Event.clientId (hn.isOf he)
      rw [hof, hclient]

theorem byClient_history_filter_isOf (h : Lawful trace) (howns : OwnsOf c owns trace) :
    byClient c (history (auditCalls (trace.filter (Call.isOf c owns)))) =
      byClient c (history (auditCalls trace)) := by
  induction trace using List.reverseRecOn with
  | nil => rfl
  | append_singleton trace call ih =>
    have ih := ih h.of_append (howns.of_concat h)
    rw [filter_concat_eq]
    rcases call.audit_cases with ⟨e, he⟩ | ⟨a, b, result, rfl⟩ | ⟨-, haudit⟩
    · have hiff := isOf_event_iff h howns he
      rw [history_event he]
      by_cases hc : e.clientId = c
      · rw [if_pos (hiff.2 hc), history_event he]
        simpa [byClient] using ih
      · rw [if_neg fun hp => hc (hiff.1 hp), ih]
        simp [byClient, hc]
    · obtain ⟨s, o, ph, hs, hnext, -, hof⟩ := howns.isOf_concat h (a := a) rfl
      -- every row of the action is its order's client's
      have hrows : ∀ (cs : List Call), cs ⊆ trace → ∀ e ∈ history (auditCalls cs), e.actionId = some a →
          e.clientId = o.clientId := by
        intro cs hsub e he hea
        obtain ⟨call, hcall, e', he', hec⟩ := exists_event_of_usedBy (usedBy_of_mem_history he hea)
        have hmem : call ∈ callsOf a trace := List.mem_filter.2
          ⟨hsub (List.mem_of_mem_filter hcall), (List.mem_filter.1 hcall).2⟩
        rcases Stage.next_cases hnext with ⟨_, -, hcontra, -⟩ | ⟨_, _, _, rfl, heq, -⟩
        · cases hcontra
        · cases heq
          exact hec.symm.trans (congrArg Tier3Event.clientId (event_isOf hs hmem he'))
      have hsub : trace.filter (Call.isOf c owns) ⊆ trace := fun _ => List.mem_of_mem_filter
      rw [history_settled]
      by_cases hc : o.clientId = c
      · rw [if_pos (hof.2 hc), history_settled,
          byClient_settle_of_own fun e he hea => (hrows trace (List.Subset.refl _) e he hea).trans hc,
          byClient_settle_of_own fun e he hea => (hrows _ hsub e he hea).trans hc, ih]
      · rw [if_neg fun hp => hc (hof.1 hp), ih]
        exact (byClient_settle_of_not (fun e he hea hec => hc
          ((hrows trace (List.Subset.refl _) e he hea).symm.trans hec)) _ _ _).symm
    · rw [history_other haudit]
      split
      · rw [history_other haudit, ih]
      · exact ih

theorem recentRows_replay (c : String) (h : Lawful trace)
    (htimes : (trace.filterMap Call.time?).Pairwise (· ≤ ·)) {t : ℤ}
    (ht : ∀ x ∈ trace.filterMap Call.time?, x ≤ t) :
    recentRows cfg c t (storeAfter cfg trace).tier3Events =
      ((byClient c (history (auditCalls trace))).rtake cfg.auditMax).filter fun e =>
        t - cfg.windowSeconds ≤ e.atTime := by
  have hsub := auditTimes_sublist trace
  rw [recentRows, tier3Events_storeAfter]
  exact (tail_replay cfg c (htimes.sublist hsub) h.oneClient fun x hx => ht x (hsub.subset hx)).filter_eq
    length_byClient_replay fun _ he => of_decide_eq_true he

theorem recentRows_filter_isOf (h : Lawful trace) (howns : OwnsOf c owns trace)
    (htimes : (trace.filterMap Call.time?).Pairwise (· ≤ ·)) {t : ℤ}
    (ht : ∀ x ∈ trace.filterMap Call.time?, x ≤ t) :
    recentRows cfg c t (storeAfter cfg (trace.filter (Call.isOf c owns))).tier3Events =
      recentRows cfg c t (storeAfter cfg trace).tier3Events := by
  have hsub : ((trace.filter (Call.isOf c owns)).filterMap Call.time?).Sublist
      (trace.filterMap Call.time?) := List.filter_sublist.filterMap _
  rw [recentRows_replay c h htimes ht, recentRows_replay c h.filter_isOf (htimes.sublist hsub)
    fun x hx => ht x (hsub.subset hx), byClient_history_filter_isOf h howns]

end

/-! ### What the endpoints make of it -/

section
variable {env env' : Env} {w w' : World} {a c : String} {exit : Exit} {now : ℤ} {outcome : Outcome}
  {reason detail : String} {status : ResolutionStatus}

theorem entries_foldl_close (ps : List Tier3PendingAction) :
    (ps.foldl (World.close env exit now outcome reason status detail) w).store.tier3Pending.entries =
      w.store.tier3Pending.entries.filter fun e => e.1 ∉ ps.map Tier3PendingAction.actionId := by
  induction ps generalizing w with
  | nil => simp
  | cons p ps ih =>
    rw [List.foldl_cons, ih, World.pending_close, Dict.entries_erase, List.filter_filter]
    refine List.filter_congr fun e _ => ?_
    by_cases hp : e.1 = p.actionId <;> simp [hp]

theorem entries_prune (h : w.Keyed) : (w.pruneTier3Pending env).store.tier3Pending.entries =
    w.store.tier3Pending.entries.filter fun e => w.now env ≤ e.2.expiresAt := by
  have hget := fun a => @World.get?_pending_prune env w a h
  simp only [World.pruneTier3Pending, World.expire, World.get?_pending_foldl_close] at hget ⊢
  rw [entries_foldl_close]
  refine List.filter_congr fun e he => ?_
  have he : (e.1, e.2) ∈ w.store.tier3Pending.entries := he
  have hget := hget e.1
  change (if _ then none else w.store.tier3Pending.get? e.1) = (w.store.tier3Pending.get? e.1).filter _ at hget
  rw [Dict.mem_entries_iff.1 he, Option.filter_some] at hget
  by_cases hmem : e.1 ∈ ((w.overdue (w.now env)).map Tier3PendingAction.actionId) <;>
    by_cases hlt : w.now env ≤ e.2.expiresAt <;> simp_all

theorem pendingOf_eq (w : World) : w.pendingOf c = (queueOf c w.store.tier3Pending).map Prod.snd := by
  rw [World.pendingOf, Dict.values, List.filter_map]
  rfl

theorem queueOf_prune (h : w.Keyed) : queueOf c (w.pruneTier3Pending env).store.tier3Pending =
    (queueOf c w.store.tier3Pending).filter fun e => w.now env ≤ e.2.expiresAt := by
  rw [queueOf, entries_prune h, queueOf, List.filter_filter, List.filter_filter]
  exact List.filter_congr fun e _ => Bool.and_comm ..

end

/-- What client `c` can tell two states apart by. -/
structure SameView (env env' : Env) (c : String) (w w' : World) : Prop where
  /-- Its grant. -/
  grant : w.store.tier3Grants.get? c = w'.store.tier3Grants.get? c
  /-- Its queued actions, in their order. -/
  queue : queueOf c w.store.tier3Pending = queueOf c w'.store.tier3Pending
  /-- Its rows in the window, and with them what it has used. -/
  rows : ∀ t, env.Past w t → env'.Past w' t → recentRows env.toTier3Config c t w.store.tier3Events =
    recentRows env'.toTier3Config c t w'.store.tier3Events
  /-- What becomes of its next order. -/
  verdict : ∀ o limit, o.clientId = c → w.now env = w'.now env' → w.tick.now env = w'.tick.now env' →
    (w.reserveOrQueue env o limit).2 = (w'.reserveOrQueue env' o limit).2
  /-- What its actions went through. -/
  life : ∀ a o ph, o.clientId = c →
    (lifeOf a w.trace = some (some (o, ph)) ↔ lifeOf a w'.trace = some (some (o, ph)))
  /-- What a poll says of its action, where both find it. -/
  fate : ∀ a r r', w.store.tier3Resolutions.get? a = some r → w'.store.tier3Resolutions.get? a = some r' →
    r.clientId = c → r'.clientId = c ∧ r'.status = r.status ∧ r'.channel = r.channel ∧
      r'.orderNumber = r.orderNumber

section
variable {env env' : Env} {w w' : World} {c : String}

theorem Call.apply_unmarked (cfg : Tier3Config) (call : Call) (s : Tier3Store) :
    call.unmarked.apply cfg s = call.apply cfg s := by cases call <;> rfl

theorem Call.about_unmarked (call : Call) : call.unmarked.about = call.about := by cases call <;> rfl

theorem Stage.next_unmarked (s : Stage) (call : Call) : s.next call.unmarked = s.next call := by
  cases call with
  | resolved created r =>
    rcases s with _ | ⟨o, ph⟩
    · rfl
    · cases ph <;> rfl
  | _ => rfl

theorem storeAfter_map_unmarked (cfg : Tier3Config) (trace : List Call) :
    storeAfter cfg (trace.map Call.unmarked) = storeAfter cfg trace := by
  rw [storeAfter, storeAfter, List.foldl_map]
  simp only [Call.apply_unmarked]

theorem lifeOf_map_unmarked (a : String) (trace : List Call) :
    lifeOf a (trace.map Call.unmarked) = lifeOf a trace := by
  rw [lifeOf, lifeOf, callsOf, List.filter_map]
  simp only [Function.comp_def, Call.about_unmarked]
  exact run_map Stage.next_unmarked ..

theorem storeAfter_callsBy {trace trace' : List Call}
    (h : (callsBy c trace).map Call.unmarked = (callsBy c trace').map Call.unmarked) (cfg : Tier3Config) :
    storeAfter cfg (callsBy c trace) = storeAfter cfg (callsBy c trace') := by
  rw [← storeAfter_map_unmarked, h, storeAfter_map_unmarked]

theorem lifeOf_of_callsBy {trace trace' : List Call} {a : String} {o : Order} {ph : ActionPhase}
    (h : (callsBy c trace).map Call.unmarked = (callsBy c trace').map Call.unmarked)
    (hlife : lifeOf a trace = some (some (o, ph))) (hc : o.clientId = c) :
    lifeOf a trace' = some (some (o, ph)) := by
  have howns : ordered c trace a := (ownsOf_ordered c trace a o ph hlife).2 hc
  have halone : lifeOf a (callsBy c trace) = some (some (o, ph)) := (lifeOf_filter_isOf howns).trans hlife
  rw [← lifeOf_map_unmarked, h, lifeOf_map_unmarked] at halone
  by_cases howns' : ordered c trace' a
  · exact (lifeOf_filter_isOf howns').symm.trans halone
  · rw [lifeOf, callsBy, callsOf_filter_isOf_of_not howns'] at halone
    cases halone

theorem reserveOrQueue_verdict {o : Order} {limit : ℕ} (hcfg : env.toTier3Config = env'.toTier3Config)
    (hused : w.usedCents env o.clientId = w'.usedCents env' o.clientId)
    (hpending : ((w.tick.pruneTier3Pending env).pendingOf o.clientId).length =
      ((w'.tick.pruneTier3Pending env').pendingOf o.clientId).length) :
    (w.reserveOrQueue env o limit).2 = (w'.reserveOrQueue env' o limit).2 := by
  unfold World.reserveOrQueue
  simp only [hused, hpending, hcfg]
  split
  · rfl
  · split <;> rfl

end

/-- Two runs under the same settings that agree on a client's own calls look the same to it. -/
theorem sameView_of_reaches (env env' : Env) (c : String) (w w' : World)
    (hcfg : env.toTier3Config = env'.toTier3Config) (h : Reaches (step env) anyAct .init w)
    (h' : Reaches (step env') anyAct .init w')
    (hown : (callsBy c w.trace).map Call.unmarked = (callsBy c w'.trace).map Call.unmarked) :
    SameView env env' c w w' := by
  have hg := good_of_reaches h
  have hg' := good_of_reaches h'
  have htime := timed_of_reaches h
  have htime' := timed_of_reaches h'
  have howns := ownsOf_ordered c w.trace
  have howns' := ownsOf_ordered c w'.trace
  have hqueue : queueOf c w.store.tier3Pending = queueOf c w'.store.tier3Pending := by
    rw [hg.store_eq, hg'.store_eq, ← queueOf_filter_isOf hg.inv.lawful howns,
      ← queueOf_filter_isOf hg'.inv.lawful howns', ← callsBy, ← callsBy, storeAfter_callsBy hown, hcfg]
  have hrows : ∀ t, env.Past w t → env'.Past w' t → recentRows env.toTier3Config c t w.store.tier3Events =
      recentRows env'.toTier3Config c t w'.store.tier3Events := by
    intro t ht ht'
    rw [hg.store_eq, hg'.store_eq,
      ← recentRows_filter_isOf hg.inv.lawful howns htime.sorted (htime.le_of_past ht),
      ← recentRows_filter_isOf hg'.inv.lawful howns' htime'.sorted (htime'.le_of_past ht'),
      ← callsBy, ← callsBy, storeAfter_callsBy hown, hcfg]
  refine ⟨?_, hqueue, hrows, fun o limit ho hnow hnow' => ?_,
    fun a o ph ho => ⟨fun h => lifeOf_of_callsBy hown h ho, fun h => lifeOf_of_callsBy hown.symm h ho⟩,
    fun a r r' hr hr' hc => ?_⟩
  · rw [hg.store_eq, hg'.store_eq, ← grants_filter_isOf (ordered c w.trace) w.trace,
      ← grants_filter_isOf (ordered c w'.trace) w'.trace, ← callsBy, ← callsBy, storeAfter_callsBy hown, hcfg]
  · subst ho
    refine reserveOrQueue_verdict hcfg ?_ ?_
    · rw [World.usedCents, ← tier3UsedCents_recentRows le_rfl, hrows _ (past_now env w) (hnow ▸ past_now env' w'),
        hcfg, hnow, tier3UsedCents_recentRows le_rfl, World.usedCents]
    · rw [pendingOf_eq, pendingOf_eq, queueOf_prune hg.tick.keyed, queueOf_prune hg'.tick.keyed, hnow']
      exact congrArg (fun l => ((List.filter _ l).map Prod.snd).length) hqueue
  · obtain ⟨o, ph, st, hlife, hst, hof, htells⟩ := phase_of_resolution hg (delivered_of_reaches h) hr
    have hoc : o.clientId = c := hof.2.1.symm.trans hc
    obtain ⟨o', ph', st', hlife', hst', hof', htells'⟩ :=
      phase_of_resolution hg' (delivered_of_reaches h') hr'
    cases (lifeOf_of_callsBy hown hlife hoc).symm.trans hlife'
    obtain rfl : st = st' := Option.some.inj (hst.symm.trans hst')
    refine ⟨hof'.2.1.trans hoc, hof'.2.2.trans hof.2.2.symm, ?_⟩
    cases ph with
    | resolved b result =>
      exact ⟨htells'.2.2.1.trans htells.2.2.1.symm, htells'.2.2.2.trans htells.2.2.2.symm⟩
    | _ => exact ⟨htells'.1.trans htells.1.symm, htells'.2.trans htells.2.symm⟩

def Env.frozen (cfg : Tier3Config) : Env := { cfg with clock := fun _ => 0, clock_mono := monotone_const }

/-- `partner-a` gets a mandate and orders within it. -/
def aloneActs : List Act :=
  [.putGrant "partner-a" 500] ++ arrive 0 "partner-a" "act-1" (chair 300 chair_range) ++ [.reserve 0]

/-- `partner-b` does the same in between. -/
def besideActs : List Act :=
  [.putGrant "partner-b" 100, .putGrant "partner-a" 500] ++
    arrive 1 "partner-b" "act-2" (chair 300 chair_range) ++ [.reserve 1] ++
    arrive 0 "partner-a" "act-1" (chair 300 chair_range) ++ [.reserve 0, .reject 2 "act-2"]

/-- What both runs do about `partner-a`. -/
def partnerACalls : List Call :=
  let o : Order := ⟨"act-1", "partner-a", chair 300 chair_range⟩
  [.granted "partner-a" 500, .minted o,
    .reserved false (o.event 0 .accepted "within mandate -- handoff in progress")]

theorem sameView_of_reaches_beside : ∃ w w', w.trace.length < w'.trace.length ∧
    SameView (.frozen ⟨100, 50, 100, 10, 100, 50⟩) (.frozen ⟨100, 50, 100, 10, 100, 50⟩) "partner-a" w w' := by
  let env : Env := .frozen ⟨100, 50, 100, 10, 100, 50⟩
  obtain ⟨w, hw, hp⟩ := exists_reaches_of_run (step env) anyAct .init aloneActs
    (fun w => decide (callsBy "partner-a" w.trace = partnerACalls ∧ w.trace.length = 3))
    (fun _ _ _ => trivial) (by decide)
  obtain ⟨w', hw', hp'⟩ := exists_reaches_of_run (step env) anyAct .init besideActs
    (fun w => decide (callsBy "partner-a" w.trace = partnerACalls ∧ 3 < w.trace.length))
    (fun _ _ _ => trivial) (by decide)
  obtain ⟨hown, hlen⟩ := of_decide_eq_true hp
  obtain ⟨hown', hlen'⟩ := of_decide_eq_true hp'
  exact ⟨w, w', by omega, sameView_of_reaches env env "partner-a" w w' rfl hw hw'
    (congrArg (List.map Call.unmarked) (hown.trans hown'.symm))⟩

end Embassy
