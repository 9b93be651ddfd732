import Embassy.Tier1

/-!
# Where Tier 1 sessions come from

Every session, and every verify request in flight, has its events behind it: the challenge it found,
the fetch it began afterwards, the body it got (`Inv`). So a session token that a check accepts was
issued to whoever published a challenge issued for the domain that the check reports (`Proven`).
-/

namespace Embassy
open Lib

namespace Tier1

/-- A challenge `k` was issued for `d`, verify request `i` then found it pending and not expired, and
then `later` happened. -/
def Chain (i : ℕ) (d k : String) (later trace : List Event) : Prop :=
  ∃ expiresAt foundAt, foundAt ≤ expiresAt ∧
    (.challenged d k expiresAt :: .found i d k foundAt :: later).Sublist trace

/-- A verify request issued the session for `d`: it found a challenge, began to fetch the challenge file
after that, got the challenge with status 200 and issued the session, which expires at `expiresAt`. -/
def Issued (sessionToken d : String) (expiresAt : ℤ) (trace : List Event) : Prop :=
  ∃ i k body issuedAt ttl, strip (decodeUtf8Replace body) = k ∧ expiresAt = issuedAt + ttl ∧
    Chain i d k [.fetching i d, .fetched i d 200 body, .opened i d k sessionToken issuedAt ttl] trace

/-- The session behind an accepted check at `now`. -/
def Proven (sessionToken d : String) (now : ℤ) (trace : List Event) : Prop :=
  ∃ expiresAt, Issued sessionToken d expiresAt trace ∧ now ≤ expiresAt

section
variable (validateDomain : String → Except String String)

/-- What is promised in a state `w` of a run. -/
structure Provenance (w : World) : Prop where
  /-- What a check reports was proven before. -/
  accepted : ∀ i authorization now w' d, step validateDomain w (.check i authorization now) = some w' →
    w'.handlers i = some (.answered (.verified d)) →
    ∃ sessionToken, bearerToken authorization = some sessionToken ∧ Proven sessionToken d now w.trace
  /-- A verify request that begins now only ever succeeds with a token that is the domain's stored and
  unexpired challenge now. -/
  current : ∀ i limited domain now w₁ w' d k sessionToken t ttl,
    step validateDomain w (.lookUp i limited domain now) = some w₁ →
    Reaches (step validateDomain) anyAct w₁ w' → .opened i d k sessionToken t ttl ∈ w'.trace →
    ∃ expiresAt, w.store.challenges.get? d = some (k, expiresAt) ∧ now ≤ expiresAt
  /-- A challenge that was overwritten (or consumed, or dropped) is never stored again. -/
  overwritten : ∀ d k e, .challenged d k e ∈ w.trace →
    (∀ expiresAt, w.store.challenges.get? d ≠ some (k, expiresAt)) →
    ∀ w', Reaches (step validateDomain) anyAct w w' →
      ∀ expiresAt, w'.store.challenges.get? d ≠ some (k, expiresAt)

end

section
variable {i : ℕ} {d k : String} {later trace es : List Event} {e : Event}

theorem Chain.mono (h : Chain i d k later trace) (es : List Event) : Chain i d k later (trace ++ es) := by
  obtain ⟨x, t, hle, hsub⟩ := h
  exact ⟨x, t, hle, hsub.trans (List.sublist_append_left ..)⟩

theorem Chain.concat (h : Chain i d k later trace) (e : Event) :
    Chain i d k (later ++ [e]) (trace ++ [e]) := by
  obtain ⟨x, t, hle, hsub⟩ := h
  exact ⟨x, t, hle, hsub.append (List.Sublist.refl [e])⟩

theorem chain_of_found {expiresAt now : ℤ} (h : .challenged d k expiresAt ∈ trace) (hnow : now ≤ expiresAt) :
    Chain i d k [] (trace ++ [.found i d k now]) :=
  ⟨expiresAt, now, hnow, (List.singleton_sublist.2 h).append (List.Sublist.refl [Event.found i d k now])⟩

theorem Issued.mono {sessionToken : String} {expiresAt : ℤ} (h : Issued sessionToken d expiresAt trace)
    (es : List Event) : Issued sessionToken d expiresAt (trace ++ es) := by
  obtain ⟨i, k, body, issuedAt, ttl, hbody, hexp, hchain⟩ := h
  exact ⟨i, k, body, issuedAt, ttl, hbody, hexp, hchain.mono es⟩

end

/-- What a request in flight has behind it. -/
def Handler.Proves (i : ℕ) (trace : List Event) : Handler → Prop
  | lookedUp d k => Chain i d k [] trace
  | fetching d k => Chain i d k [.fetching i d] trace
  | fetched d k status body => Chain i d k [.fetching i d, .fetched i d status body] trace
  | answered _ => True

theorem Handler.Proves.mono {i : ℕ} {trace : List Event} {h : Handler} (hp : h.Proves i trace)
    (es : List Event) : h.Proves i (trace ++ es) := by
  cases h with
  | answered => trivial
  | _ => exact Chain.mono hp es

structure Inv (w : World) : Prop where
  stored : ∀ d k expiresAt, w.store.challenges.get? d = some (k, expiresAt) →
    .challenged d k expiresAt ∈ w.trace
  proves : ∀ i h, w.handlers i = some h → h.Proves i w.trace
  issued : ∀ sessionToken d expiresAt, w.store.sessions.get? sessionToken = some (d, expiresAt) →
    Issued sessionToken d expiresAt w.trace
  /-- Only requests that are known have issued sessions. -/
  known : ∀ i d k sessionToken t ttl, .opened i d k sessionToken t ttl ∈ w.trace → w.handlers i ≠ none

section
variable {validateDomain : String → Except String String} {w w' : World} {act : Act} {i : ℕ}
  {d k token : String} {now expiresAt : ℤ} {h : Handler} {s : Store} {e : Event}

/-! ### The store's methods -/

theorem getPendingChallenge_some (hg : w.store.getPendingChallenge d now = (some token, s)) :
    s = w.store ∧ ∃ expiresAt, w.store.challenges.get? d = some (token, expiresAt) ∧ now ≤ expiresAt := by
  unfold Store.getPendingChallenge at hg
  split at hg
  · cases hg
  · rename_i k expiresAt hstored
    split at hg <;> rename_i hexp <;> cases hg
    exact ⟨rfl, expiresAt, hstored, not_lt.1 hexp⟩

/-- What can only lose entries. -/
structure Store.Shrinks (s s' : Store) : Prop where
  challenges : ∀ d x, s'.challenges.get? d = some x → s.challenges.get? d = some x
  sessions : ∀ t x, s'.sessions.get? t = some x → s.sessions.get? t = some x

theorem Store.Shrinks.refl (s : Store) : s.Shrinks s := ⟨fun _ _ h => h, fun _ _ h => h⟩

theorem get?_of_erase {α : Type*} {m : Dict String α} {a b : String} {x : α} (h : (m.erase a).get? b = some x) :
    m.get? b = some x := by
  rw [Dict.get?_erase] at h
  split at h
  · cases h
  · exact h

theorem shrinks_getPendingChallenge (s : Store) (d : String) (now : ℤ) :
    s.Shrinks (s.getPendingChallenge d now).2 := by
  unfold Store.getPendingChallenge
  split
  · exact .refl s
  · split
    · exact ⟨fun _ _ => get?_of_erase, fun _ _ h => h⟩
    · exact .refl s

theorem shrinks_checkSession (s : Store) (t : String) (now : ℤ) : s.Shrinks (s.checkSession t now).2 := by
  unfold Store.checkSession
  split
  · exact .refl s
  · split
    · exact ⟨fun _ _ h => h, fun _ _ => get?_of_erase⟩
    · exact .refl s

theorem checkSession_some (hc : w.store.checkSession token now = (some d, s)) :
    ∃ expiresAt, w.store.sessions.get? token = some (d, expiresAt) ∧ now ≤ expiresAt := by
  unfold Store.checkSession at hc
  split at hc
  · cases hc
  · rename_i k expiresAt hstored
    split at hc <;> rename_i hexp <;> cases hc
    exact ⟨expiresAt, hstored, not_lt.1 hexp⟩

/-- What one step does to the challenges and the trace: it issues one, it opens a session, or no token is
issued and no challenge is added. -/
theorem step_cases (hw : step validateDomain w act = some w') :
    (∃ es, w'.trace = w.trace ++ es ∧ (∀ e ∈ es, e.token? = none) ∧ w.store.Shrinks w'.store ∧
      ∀ i t now, act = .compare i t now → w'.store = w.store ∧
        ∀ d k body, w.handlers i = some (.fetched d k 200 body) → strip (decodeUtf8Replace body) ≠ k) ∨
    (∃ i limited domain now d token expiresAt, act = .challenge i limited domain token now ∧
      w.Fresh token ∧ w'.trace = w.trace ++ [.challenged d token expiresAt] ∧
      w'.store.challenges = w.store.challenges.set d (token, expiresAt)) ∨
    (∃ i d k body t now, act = .compare i t now ∧ w.handlers i = some (.fetched d k 200 body) ∧
      strip (decodeUtf8Replace body) = k ∧ w.Fresh t ∧
      w'.trace = w.trace ++ [.opened i d k t now w.store.sessionTtlSeconds] ∧
      w'.store.challenges = w.store.challenges.erase d) := by
  have hquiet : w'.trace = w.trace → w.store.Shrinks w'.store →
      (∀ i t now, act = .compare i t now → w'.store = w.store ∧
        ∀ d k body, w.handlers i = some (.fetched d k 200 body) → strip (decodeUtf8Replace body) ≠ k) →
      ∃ es, w'.trace = w.trace ++ es ∧ (∀ e ∈ es, e.token? = none) ∧ w.store.Shrinks w'.store ∧
        ∀ i t now, act = .compare i t now → w'.store = w.store ∧
          ∀ d k body, w.handlers i = some (.fetched d k 200 body) → strip (decodeUtf8Replace body) ≠ k :=
    fun ht hs ha => ⟨[], by simp [ht], by simp, hs, ha⟩
  cases act with
  | challenge i limited domain token now =>
    simp only [step] at hw
    split at hw <;> [cases hw; skip]
    split at hw
    · obtain rfl := Option.some.inj hw; exact .inl (hquiet rfl (.refl _) (by rintro _ _ _ ⟨⟩))
    · split at hw
      · obtain rfl := Option.some.inj hw; exact .inl (hquiet rfl (.refl _) (by rintro _ _ _ ⟨⟩))
      · rename_i d _
        split at hw <;> [rename_i hfresh; cases hw]
        obtain rfl := Option.some.inj hw
        exact .inr (.inl ⟨i, limited, domain, now, d, token, _, rfl, hfresh, rfl, rfl⟩)
  | lookUp i limited domain now =>
    simp only [step] at hw
    split at hw <;> [cases hw; skip]
    split at hw
    · obtain rfl := Option.some.inj hw; exact .inl (hquiet rfl (.refl _) (by rintro _ _ _ ⟨⟩))
    · split at hw
      · obtain rfl := Option.some.inj hw; exact .inl (hquiet rfl (.refl _) (by rintro _ _ _ ⟨⟩))
      · rename_i d _
        have hshrink := shrinks_getPendingChallenge w.store d now
        split at hw <;> rename_i hfound <;> obtain rfl := Option.some.inj hw <;> rw [hfound] at hshrink
        · exact .inl (hquiet rfl hshrink (by rintro _ _ _ ⟨⟩))
        · exact .inl ⟨[_], rfl, by simp [Event.token?], hshrink, (by rintro _ _ _ ⟨⟩)⟩
  | fetch i =>
    simp only [step] at hw
    split at hw <;> [skip; cases hw]
    obtain rfl := Option.some.inj hw
    exact .inl ⟨[_], rfl, by simp [Event.token?], .refl _, (by rintro _ _ _ ⟨⟩)⟩
  | fetched i result =>
    simp only [step] at hw
    split at hw <;> [skip; skip; cases hw] <;> obtain rfl := Option.some.inj hw
    · exact .inl (hquiet rfl (.refl _) (by rintro _ _ _ ⟨⟩))
    · exact .inl ⟨[_], rfl, by simp [Event.token?], .refl _, (by rintro _ _ _ ⟨⟩)⟩
  | compare i t now =>
    simp only [step] at hw
    split at hw <;> [rename_i d k status body hi; cases hw]
    split at hw <;> rename_i hcmp
    · obtain rfl := Option.some.inj hw
      refine .inl (hquiet rfl (.refl _) fun j _ _ heq => ⟨rfl, fun d' k' body' hj hbody => ?_⟩)
      cases heq
      cases hi.symm.trans hj
      exact hcmp.elim (fun hne => hne rfl) fun hne => hne hbody
    · split at hw <;> [rename_i hfresh; cases hw]
      obtain rfl := Option.some.inj hw
      obtain ⟨hstatus, hbody⟩ := not_or.1 hcmp
      obtain rfl := not_not.1 hstatus
      exact .inr (.inr ⟨i, d, k, body, t, now, rfl, hi, not_not.1 hbody, hfresh, rfl, rfl⟩)
  | check i authorization now =>
    simp only [step] at hw
    split at hw <;> [cases hw; skip]
    split at hw
    · obtain rfl := Option.some.inj hw; exact .inl (hquiet rfl (.refl _) (by rintro _ _ _ ⟨⟩))
    · rename_i t _
      have hshrink := shrinks_checkSession w.store t now
      split at hw <;> rename_i hfound <;> obtain rfl := Option.some.inj hw <;> rw [hfound] at hshrink <;>
        exact .inl (hquiet rfl hshrink (by rintro _ _ _ ⟨⟩))
  | configure challengeTtl sessionTtl =>
    obtain rfl := Option.some.inj hw
    exact .inl (hquiet rfl ⟨fun _ _ h => h, fun _ _ h => h⟩ (by rintro _ _ _ ⟨⟩))

/-! ### What keeps the invariant -/

namespace Inv

theorem init (challengeTtl sessionTtl : ℤ) : Inv (.init challengeTtl sessionTtl) where
  stored _ _ _ h := by cases h
  proves _ _ h := by cases h
  issued _ _ _ h := by cases h
  known _ _ _ _ _ _ h := by cases h

theorem goto (hI : Inv w) (i : ℕ) (hp : h.Proves i w.trace) : Inv (w.goto i h) := by
  refine ⟨hI.stored, fun j h' hj => ?_, hI.issued, fun j d k t x y hj => ?_⟩
  · change Function.update w.handlers i (some h) j = some h' at hj
    rw [Function.update_apply] at hj
    split at hj <;> rename_i hji
    · obtain rfl := Option.some.inj hj; exact hji ▸ hp
    · exact hI.proves j h' hj
  · show Function.update w.handlers i (some h) j ≠ none
    rw [Function.update_apply]
    split
    · rintro ⟨⟩
    · exact hI.known j d k t x y hj

theorem answer (hI : Inv w) (i : ℕ) (r : Response) : Inv (w.answer i r) := hI.goto i trivial

theorem shrink (hI : Inv w) (hs : w.store.Shrinks s) : Inv { w with store := s } :=
  ⟨fun d k x hd => hI.stored d k x (hs.challenges d _ hd), hI.proves,
    fun t d x ht => hI.issued t d x (hs.sessions t _ ht), hI.known⟩

theorem log (hI : Inv w) (hchallenges : ∀ d k x, s.challenges.get? d = some (k, x) →
      w.store.challenges.get? d = some (k, x) ∨ e = .challenged d k x)
    (hsessions : ∀ t d x, s.sessions.get? t = some (d, x) →
      w.store.sessions.get? t = some (d, x) ∨ Issued t d x (w.trace ++ [e]))
    (hknown : ∀ i d k t x y, e = .opened i d k t x y → w.handlers i ≠ none) : Inv (w.log s e) := by
  refine ⟨fun d k x hd => ?_, fun i h hi => (hI.proves i h hi).mono [e], fun t d x ht => ?_,
    fun i d k t x y ho => ?_⟩
  · rcases hchallenges d k x hd with hd | rfl
    · exact List.mem_append_left _ (hI.stored d k x hd)
    · exact List.mem_append_right _ (List.mem_singleton_self _)
  · rcases hsessions t d x ht with ht | ht
    · exact (hI.issued t d x ht).mono [e]
    · exact ht
  · rcases List.mem_append.1 ho with ho | ho
    · exact hI.known i d k t x y ho
    · exact hknown i d k t x y (List.mem_singleton.1 ho).symm

/-- An event that comes with no change of the store and no session. -/
theorem note (hI : Inv w) (hs : s = w.store) (he : e.token? = none) : Inv (w.log s e) := by
  subst hs
  exact hI.log (fun _ _ _ h => .inl h) (fun _ _ _ h => .inl h) fun i d k t x y heq => by
    subst heq; cases he

end Inv

theorem inv_step (hI : Inv w) (hw : step validateDomain w act = some w') : Inv w' := by
  cases act with
  | challenge i limited domain token now =>
    simp only [step] at hw
    split at hw <;> [cases hw; skip]
    split at hw
    · obtain rfl := Option.some.inj hw; exact hI.answer i _
    · split at hw
      · obtain rfl := Option.some.inj hw; exact hI.answer i _
      · rename_i d _
        split at hw <;> [skip; cases hw]
        obtain rfl := Option.some.inj hw
        refine Inv.answer ?_ i _
        refine hI.log (fun d' k x hd => ?_) (fun _ _ _ h => .inl h) (by rintro _ _ _ _ _ _ ⟨⟩)
        change (w.store.challenges.set d (token, now + w.store.challengeTtlSeconds)).get? d' = some (k, x) at hd
        rw [Dict.get?_set] at hd
        split at hd <;> rename_i hdd
        · cases hd; subst hdd; exact .inr rfl
        · exact .inl hd
  | lookUp i limited domain now =>
    simp only [step] at hw
    split at hw <;> [cases hw; skip]
    split at hw
    · obtain rfl := Option.some.inj hw; exact hI.answer i _
    · split at hw
      · obtain rfl := Option.some.inj hw; exact hI.answer i _
      · rename_i d _
        have hshrink := shrinks_getPendingChallenge w.store d now
        split at hw <;> rename_i hfound <;> obtain rfl := Option.some.inj hw
        · rw [hfound] at hshrink; exact (hI.shrink hshrink).answer i _
        · obtain ⟨hs, expiresAt, hstored, hle⟩ := getPendingChallenge_some hfound
          exact (hI.note hs rfl).goto i (chain_of_found (hI.stored _ _ _ hstored) hle)
  | fetch i =>
    simp only [step] at hw
    split at hw <;> [rename_i d k hi; cases hw]
    obtain rfl := Option.some.inj hw
    exact (hI.note rfl rfl).goto i (Chain.concat (hI.proves i _ hi) (.fetching i d))
  | fetched i result =>
    simp only [step] at hw
    split at hw <;> [skip; rename_i d k status body hi; cases hw] <;> obtain rfl := Option.some.inj hw
    · exact hI.answer i _
    · exact (hI.note rfl rfl).goto i (Chain.concat (hI.proves i _ hi) (.fetched i d status body))
  | compare i sessionToken now =>
    simp only [step] at hw
    split at hw <;> [rename_i d k status body hi; cases hw]
    split at hw <;> rename_i hcmp
    · obtain rfl := Option.some.inj hw; exact hI.answer i _
    · split at hw <;> [skip; cases hw]
      obtain rfl := Option.some.inj hw
      obtain ⟨hstatus, hbody⟩ := not_or.1 hcmp
      obtain rfl := not_not.1 hstatus
      have hchain := Chain.concat (hI.proves i _ hi)
        (.opened i d k sessionToken now w.store.sessionTtlSeconds)
      refine Inv.answer ?_ i _
      refine hI.log (fun _ _ _ h => .inl (get?_of_erase h)) (fun t d' x ht => ?_)
        (fun j _ _ _ _ _ heq => ?_)
      · change (w.store.sessions.set sessionToken (d, now + w.store.sessionTtlSeconds)).get? t =
          some (d', x) at ht
        rw [Dict.get?_set] at ht
        split at ht <;> rename_i htt
        · cases ht
          exact .inr ⟨i, k, body, now, _, not_not.1 hbody, rfl, htt ▸ hchain⟩
        · exact .inl ht
      · cases heq; rw [hi]; rintro ⟨⟩
  | check i authorization now =>
    simp only [step] at hw
    split at hw <;> [cases hw; skip]
    split at hw
    · obtain rfl := Option.some.inj hw; exact hI.answer i _
    · rename_i t _
      have hshrink := shrinks_checkSession w.store t now
      split at hw <;> rename_i hfound <;> obtain rfl := Option.some.inj hw <;> rw [hfound] at hshrink <;>
        exact (hI.shrink hshrink).answer i _
  | configure challengeTtl sessionTtl =>
    obtain rfl := Option.some.inj hw
    exact hI.shrink ⟨fun _ _ h => h, fun _ _ h => h⟩

theorem inv_of_reaches {challengeTtl sessionTtl : ℤ}
    (h : Reaches (step validateDomain) anyAct (.init challengeTtl sessionTtl) w) : Inv w :=
  h.invariant (Inv.init _ _) fun _ _ _ hI _ hw => inv_step hI hw

/-! ### One verify request -/

/-- The domain and the token it is going to compare. -/
def Handler.expects : Handler → Option (String × String)
  | lookedUp d k | fetching d k | fetched d k _ _ => some (d, k)
  | answered _ => none

/-- Request `i` can only succeed with `x`. -/
structure Only (i : ℕ) (x : Option (String × String)) (w : World) : Prop where
  expects : ∃ h, w.handlers i = some h ∧ ∀ y, h.expects = some y → x = some y
  opened : ∀ d k t now ttl, .opened i d k t now ttl ∈ w.trace → x = some (d, k)

namespace Only
variable {x : Option (String × String)} {j : ℕ}

theorem goto (ho : Only i x w) (hh : j = i → ∀ y, h.expects = some y → x = some y) :
    Only i x (w.goto j h) := by
  refine ⟨?_, ho.opened⟩
  by_cases hji : j = i
  · subst hji
    exact ⟨h, Function.update_self .., hh rfl⟩
  · obtain ⟨h', hi, hx⟩ := ho.expects
    refine ⟨h', ?_, hx⟩
    show Function.update w.handlers j (some h) i = some h'
    rw [Function.update_of_ne (Ne.symm hji), hi]

theorem answer (ho : Only i x w) (j : ℕ) (r : Response) : Only i x (w.answer j r) :=
  ho.goto fun _ _ h => by cases h

theorem log (ho : Only i x w) (s : Store) (he : ∀ d k t now ttl, e = .opened i d k t now ttl → x = some (d, k)) :
    Only i x (w.log s e) := by
  refine ⟨ho.expects, fun d k t now ttl hmem => ?_⟩
  rcases List.mem_append.1 hmem with hmem | hmem
  · exact ho.opened d k t now ttl hmem
  · exact he d k t now ttl (List.mem_singleton.1 hmem).symm

theorem of_store (ho : Only i x w) (s : Store) : Only i x { w with store := s } := ⟨ho.expects, ho.opened⟩

theorem expects_eq (ho : Only i x w) (hj : w.handlers j = some h) {y : String × String}
    (hy : h.expects = some y) : j = i → x = some y := by
  rintro rfl
  obtain ⟨h', hi, hx⟩ := ho.expects
  obtain rfl := Option.some.inj (hi.symm.trans hj)
  exact hx y hy

theorem step (ho : Only i x w) (hw : step validateDomain w act = some w') : Only i x w' := by
  cases act with
  | challenge j limited domain token now =>
    simp only [Tier1.step] at hw
    split at hw <;> [cases hw; skip]
    split at hw
    · obtain rfl := Option.some.inj hw; exact ho.answer j _
    · split at hw
      · obtain rfl := Option.some.inj hw; exact ho.answer j _
      · split at hw <;> [skip; cases hw]
        obtain rfl := Option.some.inj hw
        exact (ho.log _ (by rintro _ _ _ _ _ ⟨⟩)).answer j _
  | lookUp j limited domain now =>
    simp only [Tier1.step] at hw
    split at hw <;> [cases hw; rename_i hj]
    split at hw
    · obtain rfl := Option.some.inj hw; exact ho.answer j _
    · split at hw
      · obtain rfl := Option.some.inj hw; exact ho.answer j _
      · split at hw <;> obtain rfl := Option.some.inj hw
        · exact (ho.of_store _).answer j _
        · refine (ho.log _ (by rintro _ _ _ _ _ ⟨⟩)).goto ?_
          rintro rfl
          obtain ⟨h', hi, -⟩ := ho.expects
          rw [hj] at hi; cases hi
  | fetch j =>
    simp only [Tier1.step] at hw
    split at hw <;> [rename_i d k hj; cases hw]
    obtain rfl := Option.some.inj hw
    exact (ho.log _ (by rintro _ _ _ _ _ ⟨⟩)).goto fun hji y hy => ho.expects_eq hj hy hji
  | fetched j result =>
    simp only [Tier1.step] at hw
    split at hw <;> [skip; rename_i d k status body hj; cases hw] <;> obtain rfl := Option.some.inj hw
    · exact ho.answer j _
    · exact (ho.log _ (by rintro _ _ _ _ _ ⟨⟩)).goto fun hji y hy => ho.expects_eq hj hy hji
  | compare j sessionToken now =>
    simp only [Tier1.step] at hw
    split at hw <;> [rename_i d k status body hj; cases hw]
    split at hw
    · obtain rfl := Option.some.inj hw; exact ho.answer j _
    · split at hw <;> [skip; cases hw]
      obtain rfl := Option.some.inj hw
      refine Only.answer (ho.log _ fun d' k' t x ttl heq => ?_) j _
      cases heq
      exact ho.expects_eq hj rfl rfl
  | check j authorization now =>
    simp only [Tier1.step] at hw
    split at hw <;> [cases hw; skip]
    split at hw
    · obtain rfl := Option.some.inj hw; exact ho.answer j _
    · split at hw <;> obtain rfl := Option.some.inj hw <;> exact (ho.of_store _).answer j _
  | configure challengeTtl sessionTtl =>
    obtain rfl := Option.some.inj hw
    exact ho.of_store _

end Only

/-- A look-up that finds nothing ends the request; one that finds a token finds it stored and not
expired. -/
theorem only_of_lookUp {limited : Bool} {domain : String} (hI : Inv w)
    (hw : step validateDomain w (.lookUp i limited domain now) = some w') :
    ∃ x, Only i x w' ∧ ∀ d k, x = some (d, k) →
      ∃ expiresAt, w.store.challenges.get? d = some (k, expiresAt) ∧ now ≤ expiresAt := by
  simp only [step] at hw
  split at hw <;> [cases hw; rename_i hi]
  have hnew : ∀ {v : World} (h : Handler), (∀ d k t x y, .opened i d k t x y ∉ v.trace) →
      Only i h.expects (v.goto i h) := fun h hv =>
    ⟨⟨h, Function.update_self .., fun _ hy => hy⟩, fun d k t x y hmem => absurd hmem (hv d k t x y)⟩
  have hnone : ∀ d k t x y, .opened i d k t x y ∉ w.trace := fun d k t x y hmem => hI.known i d k t x y hmem hi
  split at hw
  · obtain rfl := Option.some.inj hw
    exact ⟨_, hnew _ hnone, by rintro _ _ ⟨⟩⟩
  · split at hw
    · obtain rfl := Option.some.inj hw
      exact ⟨_, hnew _ hnone, by rintro _ _ ⟨⟩⟩
    · split at hw <;> rename_i hfound <;> obtain rfl := Option.some.inj hw
      · exact ⟨_, hnew _ hnone, by rintro _ _ ⟨⟩⟩
      · refine ⟨_, hnew (.lookedUp _ _) fun d k t x y hmem => ?_, fun d k heq => ?_⟩
        · rcases List.mem_append.1 hmem with hmem | hmem
          · exact hnone d k t x y hmem
          · cases List.mem_singleton.1 hmem
        · cases heq
          exact (getPendingChallenge_some hfound).2

/-! ### Overwritten challenges -/

/-- The challenge `k` of `d` was issued and is not stored any more. -/
def Gone (d k : String) (w : World) : Prop :=
  (∃ expiresAt, .challenged d k expiresAt ∈ w.trace) ∧ ∀ expiresAt, w.store.challenges.get? d ≠ some (k, expiresAt)

theorem gone_step (hg : Gone d k w) (hw : step validateDomain w act = some w') : Gone d k w' := by
  obtain ⟨⟨y, hy⟩, hgone⟩ := hg
  rcases step_cases hw with ⟨es, htrace, -, hshrink, -⟩ |
    ⟨-, -, -, -, d', token, x, -, hfresh, htrace, hset⟩ |
    ⟨i, d', k', body, t, now, -, -, -, -, htrace, herase⟩ <;>
  refine ⟨⟨y, htrace ▸ List.mem_append_left _ hy⟩, fun expiresAt hx => ?_⟩
  · exact hgone expiresAt (hshrink.challenges d _ hx)
  · rw [hset, Dict.get?_set] at hx
    split at hx
    · -- a fresh token is not the old one
      cases hx; exact hfresh _ hy rfl
    · exact hgone expiresAt hx
  · rw [herase] at hx
    exact hgone expiresAt (get?_of_erase hx)

theorem issued_of_verified {authorization : Option String} (hI : Inv w)
    (hw : step validateDomain w (.check i authorization now) = some w')
    (hd : w'.handlers i = some (.answered (.verified d))) :
    ∃ sessionToken, bearerToken authorization = some sessionToken ∧ Proven sessionToken d now w.trace := by
  simp only [step] at hw
  split at hw <;> [cases hw; skip]
  split at hw
  · obtain rfl := Option.some.inj hw
    simp [World.answer, World.goto] at hd
  · rename_i t ht
    split at hw <;> rename_i hfound <;> obtain rfl := Option.some.inj hw
    · simp [World.answer, World.goto] at hd
    · obtain rfl : _ = d := by simpa [World.answer, World.goto] using hd
      obtain ⟨expiresAt, hstored, hle⟩ := checkSession_some hfound
      exact ⟨t, ht, expiresAt, hI.issued t _ expiresAt hstored, hle⟩

end

/-- Every session that a check accepts has its provenance, in every run. -/
theorem provenance_of_reaches (validateDomain : String → Except String String) (challengeTtl sessionTtl : ℤ)
    (w : World) (h : Reaches (step validateDomain) anyAct (.init challengeTtl sessionTtl) w) :
    Provenance validateDomain w := by
  have hI := inv_of_reaches h
  refine ⟨fun i authorization now w' d hw hd => issued_of_verified hI hw hd,
    fun i limited domain now w₁ w' d k t x ttl hw hreach hopened => ?_,
    fun d k e he hgone w' hreach x => ?_⟩
  · obtain ⟨x, honly, hx⟩ := only_of_lookUp hI hw
    have honly' : Only i x w' := hreach.invariant honly fun _ _ _ ho _ hs => ho.step hs
    exact hx d k (honly'.opened d k _ _ _ hopened)
  · have hgone' : Gone d k w' :=
      hreach.invariant (I := Gone d k) ⟨⟨e, he⟩, hgone⟩ fun _ _ _ hg _ hs => gone_step hg hs
    exact hgone'.2 x

/-- A challenge that is published, with a newline after it, and verified. -/
def verifiedActs : List Act :=
  [.challenge 0 false "example.com" "k" 0, .lookUp 1 false "example.com" 1, .fetch 1,
    .fetched 1 (some (200, [0x6B, 0x0A])), .compare 1 "s" 2]

theorem provenance_of_reaches_verified : ∃ w : World,
    w.handlers 1 = some (.answered (.session "s" "example.com" 3600 3602)) ∧
      Proven "s" "example.com" 5 w.trace := by
  obtain ⟨w, hw, hp⟩ := exists_reaches_of_run (step .ok) anyAct (.init 300 3600) verifiedActs
    (fun w : World => decide (w.handlers 1 = some (.answered (.session "s" "example.com" 3600 3602)) ∧
      w.handlers 2 = none ∧ (w.store.checkSession "s" 5).1 = some "example.com")) (fun _ _ _ => trivial) (by decide)
  obtain ⟨hsession, hfree, hcheck⟩ := of_decide_eq_true hp
  have hstep : step .ok w (.check 2 (some "Bearer s") 5) =
      some ({ w with store := (w.store.checkSession "s" 5).2 }.answer 2 (.verified "example.com")) := by
    have hbearer : bearerToken (some "Bearer s") = some "s" := by decide
    have hfound : w.store.checkSession "s" 5 = (some "example.com", (w.store.checkSession "s" 5).2) := by
      rw [← hcheck]
    simp only [step, hfree, hbearer]
    rw [hfound]
  obtain ⟨t, ht, hproven⟩ := (provenance_of_reaches .ok 300 3600 w hw).accepted 2 (some "Bearer s") 5 _
    "example.com" hstep (by simp [World.answer, World.goto])
  obtain rfl : t = "s" := Option.some.inj (ht.symm.trans (by decide))
  exact ⟨w, hsession, hproven⟩

end Tier1

end Embassy
