import Embassy.Tier3Lifecycle

/-!
# The store after a lawful trace

Where every action's calls follow the automaton, the approval queue and the resolution map can be
read off the phases: an entry is queued exactly while its action is in a phase that has one
(`pending_storeAfter`), and a resolution shows the status of its action's phase
(`resolution_storeAfter`).
-/

namespace Embassy
open Lib

/-- A call about no action reserves nothing. -/
def Call.Idle : Call → Prop
  | .recorded e => e.outcome = .rejected
  | .reserved .. => False
  | _ => True

/-- The calls about each action are a path of the automaton, the others reserve nothing. -/
structure Lawful (trace : List Call) : Prop where
  life : ∀ a, ∃ s, lifeOf a trace = some s
  idle : ∀ c ∈ trace, c.about = none → c.Idle

section
variable {cfg : Tier3Config} {trace cs : List Call} {c : Call} {a : String}

theorem lawful_nil : Lawful [] := ⟨fun _ => ⟨none, rfl⟩, fun _ hc => by cases hc⟩

theorem Lawful.of_append (h : Lawful (trace ++ cs)) : Lawful trace := by
  refine ⟨fun a => ?_, fun c hc => h.idle c (List.mem_append_left _ hc)⟩
  obtain ⟨s, hs⟩ := h.life a
  rw [lifeOf, callsOf_append, run_append] at hs
  obtain ⟨s', hs', -⟩ := Option.bind_eq_some_iff.1 hs
  exact ⟨s', hs'⟩

theorem Lawful.step_of_concat (h : Lawful (trace ++ [c])) (hc : c.about = some a) :
    ∃ s s', lifeOf a trace = some s ∧ s.next c = some s' ∧ lifeOf a (trace ++ [c]) = some s' := by
  obtain ⟨s', hs'⟩ := h.life a
  obtain ⟨s, h₁, h₂⟩ := step_of_lifeOf_concat hs' hc
  exact ⟨s, s', h₁, h₂, hs'⟩

theorem get?_pending_of_ne (s : Tier3Store) (hc : c.about ≠ some a) :
    (c.apply cfg s).tier3Pending.get? a = s.tier3Pending.get? a := by
  cases c with
  | queued p => exact Dict.get?_set_of_ne _ _ fun h => hc (by rw [h]; rfl)
  | popped exit now p => exact Dict.get?_erase_of_ne _ fun h => hc (by rw [h]; rfl)
  | _ => rfl

/-- The queue entry of a phase. -/
def Stage.queued? (s : Stage) : Option Tier3PendingAction := s.bind fun x => x.2.queued?

theorem get?_pending_of_next {s s' : Stage} (st : Tier3Store) (hc : c.about = some a)
    (h : s.next c = some s') (hs : st.tier3Pending.get? a = s.queued?) :
    (c.apply cfg st).tier3Pending.get? a = s'.queued? := by
  rcases Stage.next_cases h with ⟨o, rfl, rfl, rfl⟩ | ⟨o, ph, ph', rfl, rfl, hn⟩
  · exact hs
  · cases hn with
    | enqueue =>
      obtain rfl := Option.some.inj hc
      exact Dict.get?_set_self ..
    | pop =>
      obtain rfl := Option.some.inj hc
      exact Dict.get?_erase_self ..
    | _ => exact hs

theorem get?_pending (h : Lawful trace) {s : Stage} (hs : lifeOf a trace = some s) :
    (storeAfter cfg trace).tier3Pending.get? a = s.queued? := by
  induction trace using List.reverseRecOn generalizing s with
  | nil => obtain rfl := Option.some.inj hs; rfl
  | append_singleton trace c ih =>
    rw [storeAfter_concat]
    by_cases hc : c.about = some a
    · obtain ⟨s₁, s₂, h₁, h₂, h₃⟩ := h.step_of_concat hc
      obtain rfl := Option.some.inj (hs.symm.trans h₃)
      exact get?_pending_of_next _ hc h₂ (ih h.of_append h₁)
    · rw [get?_pending_of_ne _ hc]
      exact ih h.of_append (by rwa [lifeOf_append_of_ne (by simpa using hc)] at hs)

/-- An entry is queued exactly while its action is in a phase that has it. -/
theorem pending_storeAfter (h : Lawful trace) {p : Tier3PendingAction} :
    (storeAfter cfg trace).tier3Pending.get? a = some p ↔
      ∃ ph, lifeOf a trace = some (some (p.order, ph)) ∧ ph.queued? = some p := by
  obtain ⟨s, hs⟩ := h.life a
  rw [get?_pending h hs, hs]
  match s with
  | none => simp [Stage.queued?]
  | some (o, ph) =>
    simp only [Stage.queued?, Option.bind_some, Option.some.injEq, Prod.mk.injEq]
    constructor
    · intro hp; exact ⟨ph, ⟨(entry_order_of_lifeOf hs hp).symm, rfl⟩, hp⟩
    · rintro ⟨_, ⟨-, rfl⟩, hp⟩; exact hp

theorem actionId_of_pending (cfg : Tier3Config) (h : Lawful trace) {p : Tier3PendingAction}
    (hp : (storeAfter cfg trace).tier3Pending.get? a = some p) : p.actionId = a := by
  obtain ⟨ph, hlife, -⟩ := (pending_storeAfter h).1 hp
  exact order_of_lifeOf hlife

/-! ### The resolutions -/

theorem get?_dict_capPerKey {ι α κ : Type*} [DecidableEq ι] [DecidableEq κ] {key : α → κ} {n : ℕ}
    {d : Dict ι α} {k : ι} {v : α} (h : (d.capPerKey key n).get? k = some v) : d.get? k = some v :=
  Dict.mem_entries_iff.1 ((capPerKey_sublist _).subset (Dict.mem_entries_iff.2 h))

theorem get?_setTier3Resolution {now : ℤ} {d : Dict String Tier3Resolution} {b client detail : String}
    {status : ResolutionStatus} {channel orderNumber : Option String} {r : Tier3Resolution}
    (h : (setTier3Resolution cfg now d b client status detail channel orderNumber).get? a = some r) :
    if a = b then
      r = newResolution now b client status detail channel orderNumber ∨
        ∃ r', d.get? b = some r' ∧ r = r'.update now status detail channel orderNumber
    else d.get? a = some r := by
  unfold setTier3Resolution at h
  split at h
  · rename_i r' hr'
    rw [Dict.get?_set] at h
    split at h <;> rename_i hab
    · rw [if_pos hab]; exact .inr ⟨r', hr', (Option.some.inj h).symm⟩
    · rwa [if_neg hab]
  · have h := get?_dict_capPerKey h
    rw [Dict.get?_filter, Option.filter_eq_some_iff, Dict.get?_set] at h
    split at h <;> rename_i hab
    · rw [if_pos hab]; exact .inl (Option.some.inj h.1).symm
    · rw [if_neg hab]; exact h.1

theorem get?_getTier3Resolution {now : ℤ} {d : Dict String Tier3Resolution} {b : String}
    {r : Tier3Resolution} (h : (getTier3Resolution cfg now d b).2.get? a = some r) :
    d.get? a = some r := by
  unfold getTier3Resolution at h
  split at h
  · exact h
  · split at h
    · rw [Dict.get?_erase] at h
      split at h
      · cases h
      · exact h
    · exact h

theorem get?_resolutions_of_ne {s : Tier3Store} {r : Tier3Resolution} (hc : c.about ≠ some a)
    (h : (c.apply cfg s).tier3Resolutions.get? a = some r) : s.tier3Resolutions.get? a = some r := by
  cases c with
  | resolved created r' =>
    have h := get?_setTier3Resolution h
    rwa [if_neg fun hab => hc (by rw [hab]; rfl)] at h
  | looked now b => exact get?_getTier3Resolution h
  | _ => exact h

/-- The resolution fits the phase. -/
def Tier3Resolution.Shows (r : Tier3Resolution) (s : Stage) : Prop :=
  ∃ o ph status, s = some (o, ph) ∧ ph.status? = some status ∧ r.IsOf o status

theorem shows_of_resolved {d : Dict String Tier3Resolution} {o : Order} {ph' : ActionPhase}
    {status : ResolutionStatus} {r r₀ : Tier3Resolution} (h : r₀.IsOf o status)
    (hst : ph'.status? = some status) (hlast : ∀ r', d.get? r₀.actionId = some r' →
      r'.actionId = o.actionId ∧ r'.clientId = o.clientId)
    (hr : (setTier3Resolution cfg r₀.updatedAt d r₀.actionId r₀.clientId r₀.status r₀.detail r₀.channel
      r₀.orderNumber).get? r₀.actionId = some r) : r.Shows (some (o, ph')) := by
  refine ⟨o, ph', status, rfl, hst, ?_⟩
  have hr := get?_setTier3Resolution hr
  rw [if_pos rfl] at hr
  rcases hr with rfl | ⟨r', hr', rfl⟩
  · exact h
  · exact ⟨(hlast r' hr').1, (hlast r' hr').2, h.2.2⟩

/-- A resolution shows the status of its action's phase. -/
theorem resolution_storeAfter (h : Lawful trace) {s : Stage} (hs : lifeOf a trace = some s)
    {r : Tier3Resolution} (hr : (storeAfter cfg trace).tier3Resolutions.get? a = some r) :
    r.Shows s := by
  induction trace using List.reverseRecOn generalizing s r with
  | nil => cases hr
  | append_singleton trace c ih =>
    rw [storeAfter_concat] at hr
    by_cases hc : c.about = some a
    · obtain ⟨s₁, s₂, h₁, h₂, h₃⟩ := h.step_of_concat hc
      obtain rfl := Option.some.inj (hs.symm.trans h₃)
      have ih := fun r => @ih h.of_append s₁ h₁ r
      rcases Stage.next_cases h₂ with ⟨o, rfl, rfl, rfl⟩ | ⟨o, ph, ph', rfl, rfl, hn⟩
      · obtain ⟨_, _, _, hcontra, -⟩ := ih r hr
        cases hcontra
      · have hof : ∀ r', (storeAfter cfg trace).tier3Resolutions.get? a = some r' →
            r'.actionId = o.actionId ∧ r'.clientId = o.clientId := by
          intro r' hr'
          obtain ⟨o', ph'', st, heq, -, hof⟩ := ih r' hr'
          obtain ⟨rfl, rfl⟩ : o = o' ∧ ph = ph'' := by simpa using heq
          exact ⟨hof.1, hof.2.1⟩
        cases hn with
        | await hr₀ | leave hr₀ | resolve hr₀ =>
          obtain rfl := Option.some.inj hc
          exact shows_of_resolved hr₀ rfl hof hr
        | _ =>
          obtain ⟨o', ph'', st, heq, hst, hof⟩ := ih r hr
          obtain ⟨rfl, rfl⟩ := by simpa using heq
          exact ⟨o, _, st, rfl, hst, hof⟩
    · refine ih h.of_append ?_ (get?_resolutions_of_ne hc hr)
      rwa [lifeOf_append_of_ne (by simpa using hc)] at hs

end

end Embassy
