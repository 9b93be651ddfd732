import Embassy.Tier1Provenance

/-!
# A challenge is used once

`issue_session` consumes the domain's pending challenge after the fetch, whatever that challenge is by
then: two verify requests that both looked a challenge up before either issued its session both get
one, and a newer challenge of the domain is consumed in place of the confirmed one
(`not_singleUse`). Where a session is only issued on a challenge that is still the pending one, or that
nobody consumed and none replaced (`Unconsumed`), challenges are single-use
(`singleUse_of_unconsumed`).
-/

namespace Embassy
open Lib

namespace Tier1

/-- The challenge token a session came of. -/
def Event.confirmed? : Event → Option String
  | opened _ _ token .. => some token
  | _ => none

/-- The challenge tokens that gave rise to a session, once for each session. -/
def confirmed (w : World) : List String := w.trace.filterMap Event.confirmed?

/-- A verify request takes no challenge out of the store but the one it confirmed. -/
def RemovesOwn (w : World) (act : Act) (w' : World) : Prop :=
  ∀ i sessionToken now, act = .compare i sessionToken now →
    ∀ d k expiresAt, w.store.challenges.get? d = some (k, expiresAt) →
      w'.store.challenges.get? d = none → ∃ status body, w.handlers i = some (.fetched d k status body)

/-- What is promised in a state `w` of a run whose steps all meet `ok`. -/
structure SingleUse (validateDomain : String → Except String String) (ok : World → Act → Prop)
    (w : World) : Prop where
  /-- No challenge gave rise to two sessions. -/
  once : ∀ k, (confirmed w).count k ≤ 1
  /-- The next step consumes no other challenge than the one it confirmed. -/
  removes : ∀ act w', ok w act → step validateDomain w act = some w' → RemovesOwn w act w'

/-- A verify request that is about to issue a session finds its challenge pending; or none is pending
any more, and no session came of its own before. -/
def Unconsumed (w : World) : Act → Prop
  | .compare i _ _ => ∀ d k body, w.handlers i = some (.fetched d k 200 body) →
      strip (decodeUtf8Replace body) = k →
      match w.store.challenges.get? d with
      | some (pending, _) => pending = k
      | none => k ∉ confirmed w
  | _ => True

/-- The issued tokens are distinct, and a challenge that was consumed is not stored any more. -/
structure Spent (w : World) : Prop where
  nodup : (w.trace.filterMap Event.token?).Nodup
  challenged : ∀ k ∈ confirmed w, ∃ d expiresAt, .challenged d k expiresAt ∈ w.trace
  once : ∀ k, (confirmed w).count k ≤ 1
  gone : ∀ k ∈ confirmed w, ∀ d expiresAt, w.store.challenges.get? d ≠ some (k, expiresAt)

section
variable {validateDomain : String → Except String String} {w w' : World} {act : Act} {i : ℕ}
  {d d' k token : String} {now expiresAt expiresAt' ttl : ℤ}

theorem Chain.challenged {later trace : List Event} (h : Chain i d k later trace) :
    ∃ expiresAt, .challenged d k expiresAt ∈ trace := by
  obtain ⟨x, _, -, hsub⟩ := h
  exact ⟨x, hsub.subset (by simp)⟩

theorem World.Fresh.not_mem (h : w.Fresh token) : token ∉ w.trace.filterMap Event.token? := by
  rw [List.mem_filterMap]
  rintro ⟨e, he, htoken⟩
  exact h e he htoken

theorem domain_eq_of_challenged (h : (w.trace.filterMap Event.token?).Nodup)
    (hd : .challenged d k expiresAt ∈ w.trace) (hd' : .challenged d' k expiresAt' ∈ w.trace) : d = d' := by
  obtain ⟨before, after, heq⟩ := List.append_of_mem hd
  rw [heq, List.filterMap_append, List.filterMap_cons] at h
  obtain ⟨-, hafter, hdisj⟩ := List.nodup_append.1 h
  rw [heq, List.mem_append, List.mem_cons] at hd'
  rcases hd' with hmem | hmem | hmem
  · exact absurd rfl (hdisj k (List.mem_filterMap.2 ⟨_, hmem, rfl⟩) k (by simp [Event.token?]))
  · cases hmem; rfl
  · exact absurd (List.mem_filterMap.2 ⟨_, hmem, rfl⟩ : k ∈ after.filterMap Event.token?)
      (List.nodup_cons.1 hafter).1

theorem Event.confirmed?_of_token? {e : Event} (h : e.token? = none) : e.confirmed? = none := by
  cases e with
  | opened => cases h
  | _ => rfl

theorem confirmed_eq_of_trace {es : List Event} (htrace : w'.trace = w.trace ++ es)
    (hes : ∀ e ∈ es, e.confirmed? = none) : confirmed w' = confirmed w := by
  rw [confirmed, htrace, List.filterMap_append, List.filterMap_eq_nil_iff.2 hes, List.append_nil]; rfl

theorem challenged_of_fetched (hI : Inv w) {status : ℤ} {body : List UInt8}
    (hi : w.handlers i = some (.fetched d k status body)) : ∃ expiresAt, .challenged d k expiresAt ∈ w.trace :=
  Chain.challenged (hI.proves i _ hi)

theorem confirmed_of_opened {t : String} {x y : ℤ} (htrace : w'.trace = w.trace ++ [.opened i d k t x y]) :
    confirmed w' = confirmed w ++ [k] := by
  rw [confirmed, htrace, List.filterMap_append]; rfl

/-- One step of a run with fresh tokens: exactly the unconsumed steps use no challenge twice and remove no
foreign one. -/
theorem unconsumed_iff (hS : Spent w) (hw : step validateDomain w act = some w') :
    Unconsumed w act ↔ (∀ k, (confirmed w').count k ≤ 1) ∧ RemovesOwn w act w' := by
  rcases step_cases hw with ⟨es, htrace, hes, -, hact⟩ | ⟨j, l, dom, t, d, token, x, rfl, -, htrace, -⟩ |
    ⟨i, d, k, body, t, now, rfl, hi, hbody, -, htrace, herase⟩
  · rw [confirmed_eq_of_trace htrace fun e he => Event.confirmed?_of_token? (hes e he)]
    refine iff_of_true ?_ ⟨hS.once, fun i t now heq d k x hd hnone => ?_⟩
    · cases act with
      | compare i t now => exact fun d k body hi hbody => absurd hbody ((hact i t now rfl).2 d k body hi)
      | _ => trivial
    · rw [(hact i t now heq).1, hd] at hnone; cases hnone
  · rw [confirmed_eq_of_trace htrace (by simp [Event.confirmed?])]
    exact iff_of_true trivial ⟨hS.once, by rintro _ _ _ ⟨⟩⟩
  · rw [confirmed_of_opened htrace]
    constructor
    · intro hok
      have hpending := hok d k body hi hbody
      have hnew : k ∉ confirmed w := by
        intro hmem
        split at hpending
        · rename_i pending x hstored
          exact hS.gone k hmem d x (hpending ▸ hstored)
        · exact hpending hmem
      refine ⟨fun k' => ?_, fun j t' now' heq d' k' x hd' hnone => ?_⟩
      · rw [List.count_append]
        by_cases hk : k = k'
        · subst hk; simp [List.count_eq_zero.2 hnew]
        · simpa [hk] using hS.once k'
      · cases heq
        rw [herase, Dict.get?_erase] at hnone
        split at hnone <;> rename_i hdd
        · subst hdd
          rw [hd'] at hpending
          exact ⟨200, body, (show k' = k from hpending) ▸ hi⟩
        · rw [hd'] at hnone; cases hnone
    · rintro ⟨honce, hremoves⟩ d' k' body' hi' hbody'
      cases hi.symm.trans hi'
      split
      · rename_i pending x hstored
        obtain ⟨status, body, hj⟩ := hremoves i t now rfl d pending x hstored (by
          rw [herase]; exact Dict.get?_erase_self ..)
        cases hi.symm.trans hj
        rfl
      · intro hmem
        have htwo := honce k
        rw [List.count_append, List.count_singleton_self] at htwo
        have hpos : 0 < (confirmed w).count k := List.count_pos_iff.2 hmem
        omega

theorem Spent.step (hI : Inv w) (hS : Spent w) (hok : Unconsumed w act)
    (hw : step validateDomain w act = some w') : Spent w' := by
  have honce := ((unconsumed_iff hS hw).1 hok).1
  have hold : ∀ k ∈ confirmed w, ∀ es, w'.trace = w.trace ++ es →
      ∃ d x, .challenged d k x ∈ w'.trace := fun k hk es htrace => by
    obtain ⟨d, x, hmem⟩ := hS.challenged k hk
    exact ⟨d, x, htrace ▸ List.mem_append_left _ hmem⟩
  rcases step_cases hw with ⟨es, htrace, hes, hshrink, -⟩ |
    ⟨j, l, dom, t, d, token, x, rfl, hfresh, htrace, hset⟩ |
    ⟨i, d, k, body, t, now, rfl, hi, hbody, hfresh, htrace, herase⟩
  · have hconfirmed := confirmed_eq_of_trace htrace fun e he => Event.confirmed?_of_token? (hes e he)
    refine ⟨?_, fun k hk => hold k (hconfirmed ▸ hk) es htrace, honce, fun k hk d x hd => ?_⟩
    · rw [htrace, List.filterMap_append, List.filterMap_eq_nil_iff.2 hes, List.append_nil]
      exact hS.nodup
    · exact hS.gone k (hconfirmed ▸ hk) d x (hshrink.challenges d _ hd)
  · have hconfirmed : confirmed w' = confirmed w :=
      confirmed_eq_of_trace htrace (by simp [Event.confirmed?])
    refine ⟨?_, fun k hk => hold k (hconfirmed ▸ hk) _ htrace, honce, fun k hk d' y hd' => ?_⟩
    · rw [htrace, List.filterMap_append]
      exact List.Nodup.append hS.nodup (List.nodup_singleton _)
        (List.disjoint_singleton.2 hfresh.not_mem)
    · rw [hconfirmed] at hk
      rw [hset, Dict.get?_set] at hd'
      split at hd'
      · cases hd'
        obtain ⟨d'', y, hmem⟩ := hS.challenged _ hk
        exact hfresh _ hmem rfl
      · exact hS.gone k hk d' y hd'
  · have hconfirmed := confirmed_of_opened htrace
    obtain ⟨x, hx⟩ := challenged_of_fetched hI hi
    refine ⟨?_, fun k' hk' => ?_, honce, fun k' hk' d' y hd' => ?_⟩
    · rw [htrace, List.filterMap_append]
      exact List.Nodup.append hS.nodup (List.nodup_singleton _)
        (List.disjoint_singleton.2 hfresh.not_mem)
    · rw [hconfirmed, List.mem_append, List.mem_singleton] at hk'
      rcases hk' with hk' | rfl
      · exact hold k' hk' _ htrace
      · exact ⟨d, x, htrace ▸ List.mem_append_left _ hx⟩
    · rw [herase, Dict.get?_erase] at hd'
      split at hd' <;> [cases hd'; rename_i hdd]
      rw [hconfirmed, List.mem_append, List.mem_singleton] at hk'
      rcases hk' with hk' | rfl
      · exact hS.gone k' hk' d' y hd'
      · -- `k` was issued for `d` alone
        exact hdd (domain_eq_of_challenged hS.nodup (hI.stored _ _ _ hd') hx)

theorem spent_init (challengeTtl sessionTtl : ℤ) : Spent (.init challengeTtl sessionTtl) :=
  ⟨List.nodup_nil, fun _ hk => (by cases hk), fun _ => Nat.zero_le _, fun _ hk => (by cases hk)⟩

end

/-- Where sessions are only issued on challenges that nobody else consumed, challenges are single-use. -/
theorem singleUse_of_unconsumed (validateDomain : String → Except String String) (challengeTtl sessionTtl : ℤ)
    (w : World) (h : Reaches (step validateDomain) Unconsumed (.init challengeTtl sessionTtl) w) :
    SingleUse validateDomain Unconsumed w := by
  have hinit : Inv (.init challengeTtl sessionTtl) ∧ Spent (.init challengeTtl sessionTtl) :=
    ⟨Inv.init _ _, spent_init _ _⟩
  have hI : Inv w ∧ Spent w := h.invariant (I := fun w => Inv w ∧ Spent w) hinit
    fun _ _ _ hI hok hw => ⟨inv_step hI.1 hw, hI.2.step hI.1 hok hw⟩
  exact ⟨hI.2.once, fun act w' hok hw => ((unconsumed_iff hI.2 hw).1 hok).2⟩

theorem singleUse_of_unconsumed_verified : ∃ w : World,
    w.handlers 1 = some (.answered (.session "s" "example.com" 3600 3602)) ∧
      SingleUse .ok Unconsumed w := by
  have hok : ∀ a ∈ verifiedActs.take 4, ∀ w, Unconsumed w a := by
    intro a ha w
    cases a with
    | compare => simp [verifiedActs] at ha
    | _ => trivial
  obtain ⟨w, hw, hp⟩ := exists_reaches_of_run (step .ok) Unconsumed (.init 300 3600) (verifiedActs.take 4)
    (fun w : World => decide (w.handlers 1 = some (.fetched "example.com" "k" 200 [0x6B, 0x0A]) ∧
      w.store.challenges.get? "example.com" = some ("k", 300) ∧ w.store.sessionTtlSeconds = 3600 ∧
      w.Fresh "s")) hok (by decide)
  obtain ⟨hi, hstored, httl, hfresh⟩ := of_decide_eq_true hp
  have hpending : Unconsumed w (.compare 1 "s" 2) := by
    intro d k body hi' _
    cases hi.symm.trans hi'
    rw [hstored]
  have hconfirmed : ¬ ((200 : ℤ) ≠ 200 ∨ strip (decodeUtf8Replace [0x6B, 0x0A]) ≠ "k") := by decide
  have hstep : ∃ w', step .ok w (.compare 1 "s" 2) = some w' ∧
      w'.handlers 1 = some (.answered (.session "s" "example.com" 3600 3602)) := by
    simp only [step, hi, hconfirmed, hfresh, if_true, if_false]
    exact ⟨_, rfl, by simp [World.answer, World.goto, Store.issueSession, httl]⟩
  obtain ⟨w', hstep, hsession⟩ := hstep
  exact ⟨w', hsession, singleUse_of_unconsumed .ok 300 3600 w' (hw.snoc hpending hstep)⟩

/-- Two verify requests that both looked the challenge up before either issued its session. -/
def replayedActs : List Act :=
  [.challenge 0 false "example.com" "k" 0, .lookUp 1 false "example.com" 1, .lookUp 2 false "example.com" 1,
    .fetch 1, .fetched 1 (some (200, [0x6B])), .fetch 2, .fetched 2 (some (200, [0x6B])),
    .compare 1 "s" 2, .compare 2 "t" 2]

theorem not_singleUse : ¬ ∀ validateDomain challengeTtl sessionTtl w,
    Reaches (step validateDomain) anyAct (.init challengeTtl sessionTtl) w →
      SingleUse validateDomain anyAct w := by
  intro h
  obtain ⟨w, hw, hp⟩ := exists_reaches_of_run (step .ok) anyAct (.init 300 3600) replayedActs
    (fun w : World => decide ((confirmed w).count "k" = 2)) (fun _ _ _ => trivial) (by decide)
  have honce := (h .ok 300 3600 w hw).once "k"
  rw [of_decide_eq_true hp] at honce
  exact absurd honce (by decide)

end Tier1

end Embassy
