import Embassy.Tier1Provenance
import Embassy.Tier1Service

/-!
# How long Tier 1 tokens live (`verify/main.py`)

The dictionaries drop an entry only when a request meets it after its time, and an admin can change the
TTLs at any moment. Neither shows: a session is accepted up to the `expires_at` its answer promised and
not after it, and a challenge is pending from the request that issued it until it expires, is replaced or
is used (`honoured_of_reaches`).
-/

namespace Embassy
open Lib

namespace Tier1

/-- The event decides what is pending for `d`. -/
def Event.concerns (d : String) : Event → Bool
  | challenged d' _ _ => d' = d
  | opened _ d' _ _ _ _ => d' = d
  | _ => false

def lastOf (d : String) (trace : List Event) : Option Event := (trace.filter (Event.concerns d)).getLast?

/-- The session was opened for `d`, to expire at `x`. -/
def Opened (s d : String) (x : ℤ) (trace : List Event) : Prop :=
  ∃ i k t ttl, .opened i d k s t ttl ∈ trace ∧ x = t + ttl

theorem lastOf_append_of_quiet {d : String} {trace es : List Event} (h : ∀ e ∈ es, e.token? = none) :
    lastOf d (trace ++ es) = lastOf d trace := by
  have hnil : es.filter (Event.concerns d) = [] := by
    refine List.filter_eq_nil_iff.2 fun e he => ?_
    have hnone := h e he
    cases e with
    | challenged | opened => cases hnone
    | _ => simp [Event.concerns]
  rw [lastOf, List.filter_append, hnil, List.append_nil, ← lastOf]

theorem lastOf_concat (d : String) (trace : List Event) (e : Event) :
    lastOf d (trace ++ [e]) = if e.concerns d then some e else lastOf d trace := by
  rw [lastOf, List.filter_append, lastOf]
  split <;> rename_i he
  · rw [List.filter_cons_of_pos he, List.filter_nil, List.getLast?_concat]
  · rw [List.filter_cons_of_neg he, List.filter_nil, List.append_nil]

theorem Opened.mono {s d : String} {x : ℤ} {trace : List Event} (h : Opened s d x trace)
    (es : List Event) : Opened s d x (trace ++ es) := by
  obtain ⟨i, k, t, ttl, hmem, rfl⟩ := h
  exact ⟨i, k, t, ttl, List.mem_append_left _ hmem, rfl⟩

theorem opened_append_of_quiet {s d : String} {x : ℤ} {trace es : List Event}
    (h : ∀ e ∈ es, e.token? = none) : Opened s d x (trace ++ es) ↔ Opened s d x trace := by
  refine ⟨fun ⟨i, k, t, ttl, hmem, hx⟩ => ⟨i, k, t, ttl, ?_, hx⟩, fun ho => ho.mono es⟩
  exact (List.mem_append.1 hmem).resolve_right fun hmem => nomatch h _ hmem

theorem opened_concat {i : ℕ} {s s' d d' k : String} {x t ttl : ℤ} {trace : List Event} :
    Opened s' d' x (trace ++ [.opened i d k s t ttl]) ↔
      Opened s' d' x trace ∨ s' = s ∧ d' = d ∧ x = t + ttl := by
  constructor
  · rintro ⟨i', k', t', ttl', hmem, rfl⟩
    rcases List.mem_append.1 hmem with hmem | hmem
    · exact .inl ⟨i', k', t', ttl', hmem, rfl⟩
    · cases List.mem_singleton.1 hmem
      exact .inr ⟨rfl, rfl, rfl⟩
  · rintro (h | ⟨rfl, rfl, rfl⟩)
    · exact h.mono _
    · exact ⟨i, k, t, ttl, by simp, rfl⟩

theorem Opened.not_fresh {w : Tier1.World} {s d : String} {x : ℤ} (h : Opened s d x w.trace) : ¬ w.Fresh s := by
  obtain ⟨i, k, t, ttl, hmem, rfl⟩ := h
  exact fun hfresh => hfresh _ hmem rfl

namespace Service

variable (env : Env)

/-- What is promised in a state `w` of a run. -/
structure Honoured (w : World) : Prop where
  /-- A check accepts a session that was opened, until it expires. -/
  accepted : ∀ i authorization s w' d, bearerToken authorization = some s →
    step env w (.check i authorization) = some w' →
    (w'.tier1.handlers i = some (.answered (.verified d)) ↔
      ∃ x, Opened s d x w.tier1.trace ∧ w.now env ≤ x)
  /-- That is when the answer with the session said. -/
  promised : ∀ j s d expiresIn x, w.tier1.handlers j = some (.answered (.session s d expiresIn x)) →
    ∀ i authorization w', bearerToken authorization = some s →
      step env w (.check i authorization) = some w' →
      (w'.tier1.handlers i = some (.answered (.verified d)) ↔ w.now env ≤ x)
  /-- A verify request finds the last challenge of the domain, if no session was opened since, until it
  expires. -/
  pending : ∀ i domain token w' d k, w.admitted i = some (.verify, domain) →
    env.validateDomain domain = .ok d → step env w (.proceed i token) = some w' →
    (w'.tier1.handlers i = some (.lookedUp d k) ↔
      ∃ x, lastOf d w.tier1.trace = some (.challenged d k x) ∧ w.now env ≤ x)

variable {env : Env} {w : World}

/-! ### The dictionaries hold what the trace says and what has not expired -/

/-- The store as it is at `now`, after the events of `trace`. -/
structure Kept (now : ℤ) (store : Store) (trace : List Event) : Prop where
  session : ∀ s d x, store.sessions.get? s = some (d, x) → Opened s d x trace
  opened : ∀ s d x, Opened s d x trace → store.sessions.get? s = some (d, x) ∨ x < now
  /-- A token is issued once. -/
  once : ∀ s d x d' x', Opened s d x trace → Opened s d' x' trace → d = d' ∧ x = x'
  challenge : ∀ d k x, store.challenges.get? d = some (k, x) → lastOf d trace = some (.challenged d k x)
  challenged : ∀ d k x, lastOf d trace = some (.challenged d k x) →
    store.challenges.get? d = some (k, x) ∨ x < now

theorem Kept.mono {now now' : ℤ} {store : Store} {trace : List Event} (h : Kept now store trace)
    (hle : now ≤ now') : Kept now' store trace where
  session := h.session
  opened s d x ho := (h.opened s d x ho).imp_right fun hx => hx.trans_le hle
  once := h.once
  challenge := h.challenge
  challenged d k x hl := (h.challenged d k x hl).imp_right fun hx => hx.trans_le hle

section
variable {now : ℤ} {store : Store} {trace es : List Event}

theorem Kept.quiet (h : Kept now store trace) (hq : ∀ e ∈ es, e.token? = none) :
    Kept now store (trace ++ es) where
  session s d x hs := (h.session s d x hs).mono es
  opened s d x ho := h.opened s d x ((opened_append_of_quiet hq).1 ho)
  once s d x d' x' ho ho' :=
    h.once s d x d' x' ((opened_append_of_quiet hq).1 ho) ((opened_append_of_quiet hq).1 ho')
  challenge d k x hd := by
    rw [lastOf_append_of_quiet hq]
    exact h.challenge d k x hd
  challenged d k x hl := by
    rw [lastOf_append_of_quiet hq] at hl
    exact h.challenged d k x hl

theorem Kept.eraseChallenge (h : Kept now store trace) {d k : String} {x : ℤ}
    (hd : store.challenges.get? d = some (k, x)) (hx : x < now) :
    Kept now { store with challenges := store.challenges.erase d } trace where
  session := h.session
  opened := h.opened
  once := h.once
  challenge d' k' x' hd' := h.challenge d' k' x' (get?_of_erase hd')
  challenged d' k' x' hl := by
    rcases h.challenged d' k' x' hl with hd' | hx'
    · by_cases heq : d' = d
      · subst heq
        cases hd.symm.trans hd'
        exact .inr hx
      · exact .inl ((Dict.get?_erase_of_ne _ heq).trans hd')
    · exact .inr hx'

theorem Kept.eraseSession (h : Kept now store trace) {s d : String} {x : ℤ}
    (hs : store.sessions.get? s = some (d, x)) (hx : x < now) :
    Kept now { store with sessions := store.sessions.erase s } trace where
  session s' d' x' hs' := h.session s' d' x' (get?_of_erase hs')
  opened s' d' x' ho := by
    rcases h.opened s' d' x' ho with hs' | hx'
    · by_cases heq : s' = s
      · subst heq
        cases hs.symm.trans hs'
        exact .inr hx
      · exact .inl ((Dict.get?_erase_of_ne _ heq).trans hs')
    · exact .inr hx'
  once := h.once
  challenge := h.challenge
  challenged := h.challenged

theorem Kept.issueChallenge (h : Kept now store trace) (d k : String) (t : ℤ) :
    Kept now (store.issueChallenge k d t).2 (trace ++ [.challenged d k (t + store.challengeTtlSeconds)]) := by
  have hopened : ∀ {s d' x'}, Opened s d' x' (trace ++ [.challenged d k (t + store.challengeTtlSeconds)]) →
      Opened s d' x' trace := by
    rintro s d' x' ⟨i, k', t', ttl, hmem, hx⟩
    exact ⟨i, k', t', ttl, by simpa using hmem, hx⟩
  refine ⟨fun s d' x' hs => (h.session s d' x' hs).mono _, fun s d' x' ho => h.opened s d' x' (hopened ho),
    fun s d' x' d'' x'' ho ho' => h.once s d' x' d'' x'' (hopened ho) (hopened ho'),
    fun d' k' x' hd' => ?_, fun d' k' x' hl => ?_⟩
  · rw [lastOf_concat]
    rw [Store.issueChallenge, Dict.get?_set] at hd'
    split at hd' <;> rename_i heq
    · cases hd'
      rw [if_pos (by simp [Event.concerns, heq]), heq]
    · rw [if_neg (by simpa [Event.concerns] using Ne.symm heq)]
      exact h.challenge d' k' x' hd'
  · rw [lastOf_concat] at hl
    rw [Store.issueChallenge, Dict.get?_set]
    split at hl <;> rename_i heq
    · cases hl
      exact .inl (if_pos rfl)
    · rw [if_neg fun hd => heq (by simp [Event.concerns, hd])]
      exact h.challenged d' k' x' hl

theorem Kept.issueSession (h : Kept now store trace) (i : ℕ) (d k s : String) (t : ℤ)
    (hfresh : ∀ d' x', ¬ Opened s d' x' trace) :
    Kept now (store.issueSession s d t).2 (trace ++ [.opened i d k s t store.sessionTtlSeconds]) := by
  refine ⟨fun s' d' x' hs => ?_, fun s' d' x' ho => ?_, fun s' d₁ x₁ d₂ x₂ o₁ o₂ => ?_,
    fun d' k' x' hd' => ?_, fun d' k' x' hl => ?_⟩
  · rw [Store.issueSession, Dict.get?_set] at hs
    split at hs <;> rename_i heq
    · cases hs
      exact opened_concat.2 (.inr ⟨heq, rfl, rfl⟩)
    · exact (h.session s' d' x' hs).mono _
  · rw [Store.issueSession, Dict.get?_set]
    rcases opened_concat.1 ho with ho | ⟨rfl, rfl, rfl⟩
    · rw [if_neg fun heq : s' = s => hfresh d' x' (heq ▸ ho)]
      exact h.opened s' d' x' ho
    · exact .inl (if_pos rfl)
  · rcases opened_concat.1 o₁ with h₁ | ⟨rfl, rfl, rfl⟩ <;>
      rcases opened_concat.1 o₂ with h₂ | ⟨hs₂, rfl, rfl⟩
    · exact h.once s' d₁ x₁ d₂ x₂ h₁ h₂
    · exact absurd (hs₂ ▸ h₁) (hfresh _ _)
    · exact absurd h₂ (hfresh _ _)
    · exact ⟨rfl, rfl⟩
  · replace hd' : (store.challenges.erase d).get? d' = some (k', x') := hd'
    rw [Dict.get?_erase] at hd'
    split at hd' <;> rename_i heq
    · cases hd'
    · rw [lastOf_concat, if_neg (by simpa [Event.concerns] using Ne.symm heq)]
      exact h.challenge d' k' x' hd'
  · rw [lastOf_concat] at hl
    split at hl <;> rename_i heq
    · cases hl
    · rw [Store.issueSession, Dict.get?_erase_of_ne _ fun hd => heq (by simp [Event.concerns, hd])]
      exact h.challenged d' k' x' hl

end

theorem Kept.effect {now : ℤ} {w : Tier1.World} {reading : Option ℤ} {store : Store} {es : List Event}
    (h : Kept now w.store w.trace) (he : Effect w reading store es)
    (hpast : ∀ t, reading = some t → t ≤ now) : Kept now store (w.trace ++ es) := by
  cases he with
  | quiet hq => exact h.quiet hq
  | dropChallenge hnow hd hexp => simpa using h.eraseChallenge hd (hexp.trans_le (hpast _ hnow))
  | dropSession hnow hs hexp => simpa using h.eraseSession hs (hexp.trans_le (hpast _ hnow))
  | challenge => exact h.issueChallenge ..
  | session _ hfresh => exact h.issueSession _ _ _ _ _ fun _ _ ho => ho.not_fresh hfresh

structure Lasting (env : Env) (w : World) : Prop where
  kept : Kept (w.now env) w.tier1.store w.tier1.trace
  answered : ∀ i s d expiresIn x, w.tier1.handlers i = some (.answered (.session s d expiresIn x)) →
    Opened s d x w.tier1.trace

theorem stable_lasting : Stable env (Lasting env) where
  tick h := ⟨h.kept.mono now_le_tick, h.answered⟩
  limit _ _ h := ⟨h.kept.mono now_le_tick, h.answered⟩
  piece {w a t} hfits ht h := by
    obtain ⟨es, htrace, heffect, hopens⟩ := effect_of_step ht hfits.1
    refine ⟨?_, fun i s d expiresIn x hi => ?_⟩
    · show Kept (w.now env) t.store t.trace
      rw [htrace]
      exact h.kept.effect heffect fun _ hnow => hfits.le_now hnow
    · show Opened s d x t.trace
      rw [htrace]
      rcases hopens i s d expiresIn x hi with hi | ⟨k, t', hmem, rfl⟩
      · exact (h.answered i s d expiresIn x hi).mono es
      · exact ⟨i, k, t', expiresIn, List.mem_append_right _ hmem, rfl⟩
  assign {w s value} _ h := by
    cases s <;> exact ⟨⟨h.kept.session, h.kept.opened, h.kept.once, h.kept.challenge, h.kept.challenged⟩,
      h.answered⟩
  admitted _ h := ⟨h.kept, h.answered⟩
  admins _ h := ⟨h.kept, h.answered⟩

theorem lasting_init : Lasting env (.init env) where
  kept :=
    { session _ _ _ hs := by cases hs
      opened _ _ _ ho := by obtain ⟨_, _, _, _, hmem, _⟩ := ho; cases hmem
      once _ _ _ _ _ ho := by obtain ⟨_, _, _, _, hmem, _⟩ := ho; cases hmem
      challenge _ _ _ hd := by cases hd
      challenged _ _ _ hl := by cases hl }
  answered _ _ _ _ _ hi := by cases hi

/-! ### What the endpoints read -/

theorem checkSession_eq_some {store : Store} {s d : String} {now : ℤ} :
    (store.checkSession s now).1 = some d ↔ ∃ x, store.sessions.get? s = some (d, x) ∧ now ≤ x := by
  unfold Store.checkSession
  rcases store.sessions.get? s with _ | ⟨d', x⟩
  · simp
  · by_cases hx : x < now
    · simp [hx]
    · simpa [hx] using fun _ => not_lt.1 hx

theorem getPendingChallenge_eq_some {store : Store} {d k : String} {now : ℤ} :
    (store.getPendingChallenge d now).1 = some k ↔ ∃ x, store.challenges.get? d = some (k, x) ∧ now ≤ x := by
  unfold Store.getPendingChallenge
  rcases store.challenges.get? d with _ | ⟨k', x⟩
  · simp
  · by_cases hx : x < now
    · simp [hx]
    · simpa [hx] using fun _ => not_lt.1 hx

theorem verified_iff {i : ℕ} {authorization : Option String} {s d : String} {w' : World}
    (hs : bearerToken authorization = some s) (hw : step env w (.check i authorization) = some w') :
    w'.tier1.handlers i = some (.answered (.verified d)) ↔
      ∃ x, w.tier1.store.sessions.get? s = some (d, x) ∧ w.now env ≤ x := by
  rw [← checkSession_eq_some]
  simp only [step] at hw
  split at hw <;> [skip; cases hw]
  obtain ⟨t, ht, rfl⟩ := Option.map_eq_some_iff.1 hw
  simp only [Tier1.step, hs] at ht
  split at ht <;> [cases ht; skip]
  have hstore : w.tick.tier1.store = w.tier1.store := rfl
  rw [hstore] at ht
  split at ht <;> rename_i hfound <;> obtain rfl := Option.some.inj ht <;>
    simp [World.answer, World.goto, hfound]

theorem lookedUp_iff {i : ℕ} {domain token d k : String} {w' : World} (hi : w.admitted i = some (.verify, domain))
    (hd : env.validateDomain domain = .ok d) (hw : step env w (.proceed i token) = some w') :
    w'.tier1.handlers i = some (.lookedUp d k) ↔
      ∃ x, w.tier1.store.challenges.get? d = some (k, x) ∧ w.now env ≤ x := by
  rw [← getPendingChallenge_eq_some]
  simp only [step, hi] at hw
  obtain ⟨t, ht, rfl⟩ := Option.map_eq_some_iff.1 hw
  simp only [Endpoint.act, Tier1.step, hd] at ht
  split at ht <;> [cases ht; skip]
  have hstore : (w.dismiss i).tick.tier1.store = w.tier1.store := rfl
  rw [if_neg Bool.false_ne_true, hstore] at ht
  split at ht <;> rename_i hfound <;> obtain rfl := Option.some.inj ht <;>
    simp [World.answer, World.goto, World.log, hfound]

theorem Kept.opened_iff {now : ℤ} {store : Store} {trace : List Event} (h : Kept now store trace)
    {s d : String} : (∃ x, store.sessions.get? s = some (d, x) ∧ now ≤ x) ↔
      ∃ x, Opened s d x trace ∧ now ≤ x := by
  constructor
  · rintro ⟨x, hs, hx⟩
    exact ⟨x, h.session s d x hs, hx⟩
  · rintro ⟨x, ho, hx⟩
    exact ⟨x, (h.opened s d x ho).resolve_right hx.not_gt, hx⟩

theorem Kept.challenged_iff {now : ℤ} {store : Store} {trace : List Event} (h : Kept now store trace)
    {d k : String} : (∃ x, store.challenges.get? d = some (k, x) ∧ now ≤ x) ↔
      ∃ x, lastOf d trace = some (.challenged d k x) ∧ now ≤ x := by
  constructor
  · rintro ⟨x, hd, hx⟩
    exact ⟨x, h.challenge d k x hd, hx⟩
  · rintro ⟨x, hl, hx⟩
    exact ⟨x, (h.challenged d k x hl).resolve_right hx.not_gt, hx⟩

/-- In every run, whatever is set and dropped on the way: a check accepts exactly the sessions that were
opened and are not past the time their answer promised, and a verify request finds exactly the challenge
that was issued last, unless a session was opened with it or it expired. -/
theorem honoured_of_reaches {ok : World → Act → Prop} (h : Reaches (step env) ok (.init env) w) :
    Honoured env w := by
  have hlasting := stable_lasting.of_reaches lasting_init h
  refine ⟨fun i authorization s w' d hs hw => ?_, fun j s d expiresIn x hj i authorization w' hs hw => ?_,
    fun i domain token w' d k hi hd hw => ?_⟩
  · rw [verified_iff hs hw, hlasting.kept.opened_iff]
  · rw [verified_iff hs hw, hlasting.kept.opened_iff]
    have ho := hlasting.answered j s d expiresIn x hj
    constructor
    · rintro ⟨x', ho', hx'⟩
      rwa [(hlasting.kept.once s d x d x' ho ho').2]
    · exact fun hx => ⟨x, ho, hx⟩
  · rw [lookedUp_iff hi hd hw, hlasting.kept.challenged_iff]

/-- A session is opened, and then an admin sets everything to 1. -/
def shortenActs : List Act :=
  [.arrive 0 .challenge ⟨none, none⟩ "a.example", .proceed 0 "token",
    .arrive 1 .verify ⟨none, none⟩ "a.example", .proceed 1 "", .fetch 1,
    .fetched 1 (some (200, "token".toUTF8.toList)), .compare 1 "session",
    .putConfig 0 (some "admin") fun _ => 1, .write 0, .write 0]

theorem honoured_of_reaches_shorten : ∃ w, Reaches (step .default) anyAct (.init .default) w ∧
    (w.tier1.handlers 1 = some (.answered (.session "session" "a.example" 3600 3604)) ∧
      w.settings .sessionTtlSeconds = 1) ∧ Honoured .default w := by
  obtain ⟨w, hr, hw⟩ := exists_reaches_of_run (step .default) anyAct (.init .default) shortenActs
    (fun w => decide (w.tier1.handlers 1 = some (.answered (.session "session" "a.example" 3600 3604)) ∧
      w.settings .sessionTtlSeconds = 1)) (fun _ _ _ => trivial) (by decide +kernel)
  exact ⟨w, hr, of_decide_eq_true hw, honoured_of_reaches hr⟩

end Service

end Tier1

end Embassy
