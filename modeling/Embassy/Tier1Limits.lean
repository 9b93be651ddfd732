import Embassy.Tier1Provenance
import Embassy.Tier1Service

/-!
# What the rate limiter keeps to while the settings change (`verify/main.py`)

A call of `check_rate_limit` drops the hits of its key that are too old for the window it is called
with, so a shorter window set for a while is not undone by a longer one later. Counted are the hits that
no later call of their key dropped (`standing`), and in every run the calls are admitted by that count
(`limitsExact_of_reaches`). The bounds on the settings make it a protection that no admin can turn off
(`protected_of_reaches`).
-/

namespace Embassy
open Lib

namespace Tier1.Service

def settingsAfter (initial : Setting → ℤ) (writes : List (Setting × ℤ)) : Setting → ℤ :=
  writes.foldl (fun settings w => Function.update settings w.1 w.2) initial

namespace LimitCall

def SameKey (c c' : LimitCall) : Prop := c'.endpoint = c.endpoint ∧ c'.clientIp = c.clientIp

instance (c c' : LimitCall) : Decidable (c.SameKey c') := inferInstanceAs (Decidable (_ ∧ _))

def hit (c : LimitCall) : WindowHit ℚ := ⟨c.window, c.time⟩

/-- The hits of `c`'s key among the calls. -/
def hitsOf (c : LimitCall) (calls : List LimitCall) : List (WindowHit ℚ) :=
  (calls.filter fun c' => c.SameKey c').map hit

/-- The admitted calls of `c`'s key from `lo` to `hi`. -/
def admittedIn (c : LimitCall) (lo hi : ℤ) (calls : List LimitCall) : List LimitCall :=
  calls.filter fun c' => c.SameKey c' ∧ lo ≤ c'.time ∧ c'.time ≤ hi ∧ c'.admitted = true

end LimitCall

variable (env : Env)

/-- What is promised in a state `w` of a run. -/
structure LimitsExact (w : World) : Prop where
  /-- A call is made with the settings as the last writes before it left them. -/
  current : ∀ c ∈ w.calls, c.written ≤ w.writes.length ∧
    c.maxRequests = settingsAfter env.initial (w.writes.take c.written) c.endpoint.rateLimitMax ∧
    c.window = settingsAfter env.initial (w.writes.take c.written) c.endpoint.rateLimitWindow *
      env.ticksPerSecond
  /-- Admitted is a call if its key has at most so many hits left, itself included. -/
  exact : ∀ before c after, w.calls = before ++ c :: after →
    (c.admitted = true ↔ ((standing (c.hitsOf (before ++ [c]))).length : ℤ) ≤ c.maxRequests)
  /-- Where every call of a key in an interval allows at most `M` in a longer window, at most `M` are
  admitted in the interval. -/
  bounded : ∀ (c : LimitCall) (lo hi : ℤ) (M : ℕ),
    (∀ c' ∈ w.calls, c.SameKey c' → lo ≤ c'.time → c'.time ≤ hi →
      c'.maxRequests ≤ M ∧ hi - lo < c'.window) →
    (c.admittedIn lo hi w.calls).length ≤ M

/-- What the bounds on the settings make of it. -/
structure Protected (w : World) : Prop where
  inBounds : ∀ s : Setting, s.InBounds (w.settings s)
  /-- No key gets more than the largest limit within a second. -/
  limited : ∀ (c : LimitCall) (lo hi : ℤ), hi - lo < env.ticksPerSecond →
    (c.admittedIn lo hi w.calls).length ≤ 10000
  /-- Who made no call within the longest window is admitted. -/
  served : ∀ before c after, w.calls = before ++ c :: after →
    (∀ c' ∈ before, c.SameKey c' → 3600 * (env.ticksPerSecond : ℤ) ≤ c.time - c'.time) → c.admitted = true
  /-- Nothing is kept valid for more than a day from now. -/
  challenges : ∀ d k expiresAt, w.tier1.store.challenges.get? d = some (k, expiresAt) →
    expiresAt ≤ w.now env + 86400 * env.ticksPerSecond
  sessions : ∀ s d expiresAt, w.tier1.store.sessions.get? s = some (d, expiresAt) →
    expiresAt ≤ w.now env + 86400 * env.ticksPerSecond

variable {env : Env} {w : World}

/-- What the writes make of the settings, now and at each call. -/
structure Current (env : Env) (w : World) : Prop where
  settings : w.settings = settingsAfter env.initial w.writes
  calls : ∀ c ∈ w.calls, c.written ≤ w.writes.length ∧
    c.maxRequests = settingsAfter env.initial (w.writes.take c.written) c.endpoint.rateLimitMax ∧
    c.window = settingsAfter env.initial (w.writes.take c.written) c.endpoint.rateLimitWindow *
      env.ticksPerSecond

theorem writes_assign (s : Setting) (value : ℤ) : (w.assign env s value).writes = w.writes ++ [(s, value)] := by
  cases s <;> rfl

theorem settings_assign (s : Setting) (value : ℤ) :
    (w.assign env s value).settings = Function.update w.settings s value := by
  cases s <;> rfl

theorem calls_assign (s : Setting) (value : ℤ) : (w.assign env s value).calls = w.calls := by cases s <;> rfl

theorem settingsAfter_concat (initial : Setting → ℤ) (writes : List (Setting × ℤ)) (s : Setting) (value : ℤ) :
    settingsAfter initial (writes ++ [(s, value)]) =
      Function.update (settingsAfter initial writes) s value := by
  rw [settingsAfter, List.foldl_concat, ← settingsAfter]

theorem Current.assign (h : Current env w) (s : Setting) (value : ℤ) :
    Current env (w.assign env s value) where
  settings := by rw [settings_assign, writes_assign, settingsAfter_concat, h.settings]
  calls c hc := by
    rw [calls_assign] at hc
    obtain ⟨hle, hcur⟩ := h.calls c hc
    rw [writes_assign, List.take_append_of_le_length hle, List.length_append]
    exact ⟨by omega, hcur⟩

theorem Current.limit (h : Current env w) (e : Endpoint) (clientIp : String) :
    Current env (w.checkRateLimit env e clientIp).2 where
  settings := h.settings
  calls c hc := by
    rcases List.mem_append.1 hc with hc | hc
    · exact h.calls c hc
    · obtain rfl := List.mem_singleton.1 hc
      have htake : (w.checkRateLimit env e clientIp).2.writes.take w.writes.length = w.writes :=
        List.take_length
      rw [htake, ← h.settings]
      exact ⟨le_refl _, rfl, rfl⟩

theorem stable_current : Stable env (Current env) where
  tick h := ⟨h.settings, h.calls⟩
  limit e clientIp h := h.limit e clientIp
  piece _ _ h := ⟨h.settings, h.calls⟩
  assign _ h := h.assign _ _
  admitted _ h := ⟨h.settings, h.calls⟩
  admins _ h := ⟨h.settings, h.calls⟩

/-! ### The hits are those that stand -/

theorem LimitCall.SameKey.hitsOf_eq {c c' : LimitCall} (h : c.SameKey c') (calls : List LimitCall) :
    c'.hitsOf calls = c.hitsOf calls := by
  have hiff : ∀ x, c'.SameKey x ↔ c.SameKey x := fun x => by rw [SameKey, SameKey, h.1, h.2]
  simp only [hitsOf, hiff]

theorem hitsOf_concat_self (c : LimitCall) (calls : List LimitCall) :
    c.hitsOf (calls ++ [c]) = c.hitsOf calls ++ [c.hit] := by
  simp [LimitCall.hitsOf, LimitCall.SameKey]

theorem rateKey_inj {e e' : Endpoint} {clientIp clientIp' : String} :
    RateLimiter.rateKey e'.bucket.name clientIp' = RateLimiter.rateKey e.bucket.name clientIp ↔
      e' = e ∧ clientIp' = clientIp := by
  have hbucket : e'.bucket = e.bucket ↔ e' = e := by cases e <;> cases e' <;> decide
  have h := @RateLimiter.rateKey_inj ⟨e.bucket, clientIp, 0⟩ ⟨e'.bucket, clientIp', 0⟩
  rwa [RateLimiter.RateCall.SameKey, hbucket] at h

structure Counted (env : Env) (w : World) : Prop where
  sorted : (w.calls.map LimitCall.time).Pairwise (· ≤ ·)
  past : ∀ c ∈ w.calls, c.time ≤ w.now env
  stored : ∀ c : LimitCall,
    (w.rateLimitHits.get? (RateLimiter.rateKey c.endpoint.bucket.name c.clientIp)).getD [] =
      hitLog (c.hitsOf w.calls)
  exact : ∀ before c after, w.calls = before ++ c :: after →
    (c.admitted = true ↔ ((standing (c.hitsOf (before ++ [c]))).length : ℤ) ≤ c.maxRequests)

theorem Counted.past_tick (h : Counted env w) : ∀ c ∈ w.calls, c.time ≤ w.tick.now env :=
  fun c hc => (h.past c hc).trans (env.clock_mono (Nat.le_succ _))

def callNow (env : Env) (w : World) (e : Endpoint) (clientIp : String) : LimitCall where
  endpoint := e
  clientIp := clientIp
  time := w.now env
  maxRequests := w.settings e.rateLimitMax
  window := w.settings e.rateLimitWindow * env.ticksPerSecond
  written := w.writes.length
  admitted := (w.checkRateLimit env e clientIp).1

theorem calls_checkRateLimit (e : Endpoint) (clientIp : String) :
    (w.checkRateLimit env e clientIp).2.calls = w.calls ++ [callNow env w e clientIp] := rfl

theorem Counted.hits_checkRateLimit (h : Counted env w) (e : Endpoint) (clientIp : String) :
    hit (callNow env w e clientIp).hit.window (callNow env w e clientIp).hit.time
      ((w.rateLimitHits.get? (RateLimiter.rateKey e.bucket.name clientIp)).getD []) =
    hitLog ((callNow env w e clientIp).hitsOf (w.calls ++ [callNow env w e clientIp])) := by
  rw [hitsOf_concat_self, hitLog_concat]
  exact congrArg _ (h.stored (callNow env w e clientIp))

theorem Counted.admitted_callNow (h : Counted env w) (e : Endpoint) (clientIp : String) :
    (callNow env w e clientIp).admitted = true ↔
      ((standing ((callNow env w e clientIp).hitsOf (w.calls ++ [callNow env w e clientIp]))).length : ℤ) ≤
        (callNow env w e clientIp).maxRequests := by
  have hpos : 0 < (standing
      ((callNow env w e clientIp).hitsOf (w.calls ++ [callNow env w e clientIp]))).length := by
    rw [hitsOf_concat_self, standing_concat, List.length_append, List.length_singleton]
    exact Nat.succ_pos _
  have hadmitted : (callNow env w e clientIp).admitted =
      decide ((hit (callNow env w e clientIp).hit.window (callNow env w e clientIp).hit.time
        ((w.rateLimitHits.get? (RateLimiter.rateKey e.bucket.name clientIp)).getD [])).length ≤
          (callNow env w e clientIp).maxRequests.toNat) := rfl
  rw [hadmitted, h.hits_checkRateLimit, hitLog_eq, List.length_map, decide_eq_true_iff]
  omega

theorem Counted.limit (h : Counted env w) (e : Endpoint) (clientIp : String) :
    Counted env (w.checkRateLimit env e clientIp).2 where
  sorted := by
    rw [calls_checkRateLimit, List.map_append]
    refine List.pairwise_append.2 ⟨h.sorted, List.pairwise_singleton _ _, ?_⟩
    intro t ht t' ht'
    obtain ⟨c, hc, rfl⟩ := List.mem_map.1 ht
    obtain rfl := List.mem_singleton.1 ht'
    exact h.past c hc
  past c hc := by
    rcases List.mem_append.1 hc with hc | hc
    · exact h.past_tick c hc
    · obtain rfl := List.mem_singleton.1 hc
      exact env.clock_mono (Nat.le_succ _)
  stored c := by
    have hset : (w.checkRateLimit env e clientIp).2.rateLimitHits =
        w.rateLimitHits.set (RateLimiter.rateKey e.bucket.name clientIp)
          (hit (callNow env w e clientIp).hit.window (callNow env w e clientIp).hit.time
            ((w.rateLimitHits.get? (RateLimiter.rateKey e.bucket.name clientIp)).getD [])) := rfl
    rw [hset, Dict.get?_set, h.hits_checkRateLimit, calls_checkRateLimit]
    by_cases hkey : c.SameKey (callNow env w e clientIp)
    · have heq : RateLimiter.rateKey c.endpoint.bucket.name c.clientIp =
          RateLimiter.rateKey e.bucket.name clientIp := rateKey_inj.2 ⟨hkey.1.symm, hkey.2.symm⟩
      rw [if_pos heq, Option.getD_some, hkey.hitsOf_eq]
    · have hother : c.hitsOf (w.calls ++ [callNow env w e clientIp]) = c.hitsOf w.calls := by
        simp [LimitCall.hitsOf, hkey]
      rw [if_neg fun heq => hkey (by obtain ⟨he, hip⟩ := rateKey_inj.1 heq; exact ⟨he.symm, hip.symm⟩),
        h.stored, hother]
  exact before c after heq := by
    rw [calls_checkRateLimit] at heq
    rcases List.eq_nil_or_concat after with rfl | ⟨after, c', rfl⟩
    · obtain ⟨rfl, hc⟩ := List.append_inj' heq rfl
      obtain rfl := (List.singleton_inj.1 hc).symm
      exact h.admitted_callNow e clientIp
    · rw [List.concat_eq_append, ← List.cons_append, ← List.append_assoc] at heq
      exact h.exact before c after (List.append_inj' heq rfl).1

theorem stable_counted : Stable env (Counted env) where
  tick h := ⟨h.sorted, h.past_tick, h.stored, h.exact⟩
  limit e clientIp h := h.limit e clientIp
  piece _ _ h := ⟨h.sorted, h.past, h.stored, h.exact⟩
  assign {w s value} _ h := by cases s <;> exact ⟨h.sorted, h.past, h.stored, h.exact⟩
  admitted _ h := ⟨h.sorted, h.past, h.stored, h.exact⟩
  admins _ h := ⟨h.sorted, h.past, h.stored, h.exact⟩

theorem counted_init : Counted env (.init env) where
  sorted := .nil
  past _ hc := absurd hc List.not_mem_nil
  stored _ := rfl
  exact before c after heq := by simp [World.init] at heq

theorem LimitCall.mem_hitsOf {c : LimitCall} {calls : List LimitCall} {h : WindowHit ℚ} :
    h ∈ c.hitsOf calls ↔ ∃ c' ∈ calls, c.SameKey c' ∧ c'.hit = h := by
  simp [hitsOf, and_assoc]

theorem LimitCall.sorted_hitsOf {calls : List LimitCall} (h : (calls.map LimitCall.time).Pairwise (· ≤ ·))
    (c : LimitCall) : ((c.hitsOf calls).map WindowHit.time).Pairwise (· ≤ ·) := by
  rw [hitsOf, List.map_map, List.pairwise_map]
  refine ((List.pairwise_map.1 h).filter _).imp fun {a b} hab => ?_
  exact Int.cast_le.2 hab

/-- At the last admitted call of the interval, all calls of the interval stand. -/
theorem length_admittedIn_le {calls : List LimitCall} (hsorted : (calls.map LimitCall.time).Pairwise (· ≤ ·))
    (hexact : ∀ before c after, calls = before ++ c :: after →
      (c.admitted = true ↔ ((standing (c.hitsOf (before ++ [c]))).length : ℤ) ≤ c.maxRequests))
    (c : LimitCall) {lo hi : ℤ} {M : ℕ}
    (hall : ∀ c' ∈ calls, c.SameKey c' → lo ≤ c'.time → c'.time ≤ hi →
      c'.maxRequests ≤ M ∧ hi - lo < c'.window) :
    (c.admittedIn lo hi calls).length ≤ M := by
  induction calls using List.reverseRecOn with
  | nil => exact Nat.zero_le _
  | append_singleton calls last ih =>
    by_cases hlast : c.SameKey last ∧ lo ≤ last.time ∧ last.time ≤ hi ∧ last.admitted = true
    · obtain ⟨hkey, hlo, hhi, hadmitted⟩ := hlast
      have hcount := (hexact calls last [] rfl).1 hadmitted
      have hmax := (hall last (by simp) hkey hlo hhi).1
      rw [hkey.hitsOf_eq] at hcount
      have hle : (c.admittedIn lo hi (calls ++ [last])).length ≤
          ((c.hitsOf (calls ++ [last])).filter fun h => (lo : ℚ) ≤ h.time).length := by
        rw [LimitCall.hitsOf, List.filter_map, List.length_map, List.filter_filter]
        refine List.Sublist.length_le (List.monotone_filter_right _ fun c' hc' => ?_)
        simp only [decide_eq_true_eq] at hc'
        simpa [LimitCall.hit] using And.intro hc'.2.1 hc'.1
      have hbefore : ∀ c' ∈ calls ++ [last], c'.time ≤ last.time := by
        intro c' hc'
        rw [List.map_append, List.pairwise_append] at hsorted
        rcases List.mem_append.1 hc' with hc' | hc'
        · exact hsorted.2.2 _ (List.mem_map_of_mem hc') _ (List.mem_singleton_self _)
        · rw [List.mem_singleton.1 hc']
      have hstand : ((c.hitsOf (calls ++ [last])).filter fun h => (lo : ℚ) ≤ h.time).length ≤
          (standing (c.hitsOf (calls ++ [last]))).length := by
        refine length_filter_le_standing (LimitCall.sorted_hitsOf hsorted c) _ fun h hh h' hh' hp hle => ?_
        obtain ⟨a, -, -, rfl⟩ := LimitCall.mem_hitsOf.1 hh
        obtain ⟨b, hb, hkeyb, rfl⟩ := LimitCall.mem_hitsOf.1 hh'
        have hloa : lo ≤ a.time := Int.cast_le.1 (of_decide_eq_true hp)
        have hab : a.time ≤ b.time := Int.cast_le.1 hle
        have hbhi := (hbefore b hb).trans hhi
        have hwindow := (hall b hb hkeyb (hloa.trans hab) hbhi).2
        have hlt : b.time - a.time < b.window := by omega
        have hcast : ((b.time - a.time : ℤ) : ℚ) < b.window := Int.cast_lt.2 hlt
        rw [Int.cast_sub] at hcast
        exact hcast
      omega
    · have hnot : c.admittedIn lo hi (calls ++ [last]) = c.admittedIn lo hi calls := by
        rw [LimitCall.admittedIn, List.filter_append, List.filter_cons_of_neg (by simpa using hlast)]
        simp [LimitCall.admittedIn]
      rw [hnot]
      refine ih (hsorted.sublist ((List.sublist_append_left ..).map _)) (fun before c after heq => ?_)
        fun c' hc' => hall c' (List.mem_append_left _ hc')
      exact hexact before c (after ++ [last]) (by rw [heq, List.append_assoc]; rfl)

/-- In every run: each call is made with the settings as last written, and admitted by the hits of its key
that no later one dropped. Whatever the settings were changed to, an interval has no more admitted calls
of a key than all its calls allow. -/
theorem limitsExact_of_reaches {ok : World → Act → Prop} (h : Reaches (step env) ok (.init env) w) :
    LimitsExact env w where
  current := (stable_current.of_reaches ⟨rfl, fun _ hc => absurd hc List.not_mem_nil⟩ h).calls
  exact := (stable_counted.of_reaches counted_init h).exact
  bounded c _ _ _ hall :=
    have hcounted := stable_counted.of_reaches counted_init h
    length_admittedIn_le hcounted.sorted hcounted.exact c hall

/-! ### The bounds -/

/-- What the bounds on the settings mean for the store and for the calls. -/
structure Bounded (env : Env) (w : World) : Prop where
  settings : ∀ s : Setting, s.InBounds (w.settings s)
  challengeTtl : w.tier1.store.challengeTtlSeconds ≤ 86400 * env.ticksPerSecond
  sessionTtl : w.tier1.store.sessionTtlSeconds ≤ 86400 * env.ticksPerSecond
  challenges : ∀ d k expiresAt, w.tier1.store.challenges.get? d = some (k, expiresAt) →
    expiresAt ≤ w.now env + 86400 * env.ticksPerSecond
  sessions : ∀ s d expiresAt, w.tier1.store.sessions.get? s = some (d, expiresAt) →
    expiresAt ≤ w.now env + 86400 * env.ticksPerSecond
  maxRequests : ∀ c ∈ w.calls, 0 < c.maxRequests ∧ c.maxRequests ≤ 10000
  window : ∀ c ∈ w.calls, env.ticksPerSecond ≤ c.window ∧ c.window ≤ 3600 * env.ticksPerSecond

theorem Bounded.tick (h : Bounded env w) : Bounded env w.tick where
  settings := h.settings
  challengeTtl := h.challengeTtl
  sessionTtl := h.sessionTtl
  challenges d k x hd := (h.challenges d k x hd).trans (add_le_add_left now_le_tick _)
  sessions s d x hs := (h.sessions s d x hs).trans (add_le_add_left now_le_tick _)
  maxRequests := h.maxRequests
  window := h.window

theorem inBounds_ticks {s : Setting} {value : ℤ} (h : s.InBounds value) :
    env.ticksPerSecond ≤ value * env.ticksPerSecond ∧
      value * env.ticksPerSecond ≤ s.max * env.ticksPerSecond :=
  ⟨le_mul_of_one_le_left (Int.natCast_nonneg _) h.1,
    mul_le_mul_of_nonneg_right h.2 (Int.natCast_nonneg _)⟩

theorem Bounded.limit (h : Bounded env w) (e : Endpoint) (clientIp : String) :
    Bounded env (w.checkRateLimit env e clientIp).2 where
  settings := h.settings
  challengeTtl := h.challengeTtl
  sessionTtl := h.sessionTtl
  challenges := h.tick.challenges
  sessions := h.tick.sessions
  maxRequests c hc := by
    rcases List.mem_append.1 hc with hc | hc
    · exact h.maxRequests c hc
    · obtain rfl := List.mem_singleton.1 hc
      have hin := h.settings e.rateLimitMax
      cases e <;> exact hin
  window c hc := by
    rcases List.mem_append.1 hc with hc | hc
    · exact h.window c hc
    · obtain rfl := List.mem_singleton.1 hc
      have hin := @inBounds_ticks env _ _ (h.settings e.rateLimitWindow)
      cases e <;> exact hin

theorem Effect.of_get?_challenges {w : Tier1.World} {now : Option ℤ} {store : Store} {es : List Event}
    {d k : String} {x : ℤ} (h : Effect w now store es) (hd : store.challenges.get? d = some (k, x)) :
    w.store.challenges.get? d = some (k, x) ∨ ∃ t, now = some t ∧ x = t + w.store.challengeTtlSeconds := by
  cases h with
  | quiet | dropSession => exact .inl hd
  | dropChallenge | session => exact .inl (get?_of_erase hd)
  | challenge hnow =>
    rw [Store.issueChallenge, Dict.get?_set] at hd
    split at hd
    · obtain ⟨-, rfl⟩ := Prod.mk.inj (Option.some.inj hd)
      exact .inr ⟨_, hnow, rfl⟩
    · exact .inl hd

theorem Effect.of_get?_sessions {w : Tier1.World} {now : Option ℤ} {store : Store} {es : List Event}
    {s d : String} {x : ℤ} (h : Effect w now store es) (hs : store.sessions.get? s = some (d, x)) :
    w.store.sessions.get? s = some (d, x) ∨ ∃ t, now = some t ∧ x = t + w.store.sessionTtlSeconds := by
  cases h with
  | quiet | dropChallenge | challenge => exact .inl hs
  | dropSession => exact .inl (get?_of_erase hs)
  | session hnow =>
    rw [Store.issueSession, Dict.get?_set] at hs
    split at hs
    · obtain ⟨-, rfl⟩ := Prod.mk.inj (Option.some.inj hs)
      exact .inr ⟨_, hnow, rfl⟩
    · exact .inl hs

theorem Bounded.piece (h : Bounded env w) {a : Tier1.Act} {t : Tier1.World} (hfits : Fits env w a)
    (ht : Tier1.step env.validateDomain w.tier1 a = some t) : Bounded env { w with tier1 := t } := by
  obtain ⟨es, -, heffect, -⟩ := effect_of_step ht hfits.1
  obtain ⟨hcttl, hsttl⟩ := heffect.ttls
  refine ⟨h.settings, hcttl ▸ h.challengeTtl, hsttl ▸ h.sessionTtl, fun d k x hd => ?_,
    fun s d x hs => ?_, h.maxRequests, h.window⟩
  · rcases heffect.of_get?_challenges hd with hd | ⟨now, hnow, rfl⟩
    · exact h.challenges d k x hd
    · exact add_le_add (hfits.le_now hnow) h.challengeTtl
  · rcases heffect.of_get?_sessions hs with hs | ⟨now, hnow, rfl⟩
    · exact h.sessions s d x hs
    · exact add_le_add (hfits.le_now hnow) h.sessionTtl

theorem Bounded.assign (h : Bounded env w) {s : Setting} {value : ℤ} (hvalue : s.InBounds value) :
    Bounded env (w.assign env s value) := by
  have hsettings : ∀ s' : Setting, s'.InBounds ((w.assign env s value).settings s') := by
    intro s'
    rw [settings_assign, Function.update_apply]
    split <;> rename_i hs
    · exact hs ▸ hvalue
    · exact h.settings s'
  have hticks := (@inBounds_ticks env _ _ hvalue).2
  cases s with
  | challengeTtlSeconds =>
    exact ⟨hsettings, hticks, h.sessionTtl, h.challenges, h.sessions, h.maxRequests, h.window⟩
  | sessionTtlSeconds =>
    exact ⟨hsettings, h.challengeTtl, hticks, h.challenges, h.sessions, h.maxRequests, h.window⟩
  | _ => exact ⟨hsettings, h.challengeTtl, h.sessionTtl, h.challenges, h.sessions, h.maxRequests, h.window⟩

theorem stable_bounded : Stable env (Bounded env) where
  tick h := h.tick
  limit e clientIp h := h.limit e clientIp
  piece hfits ht h := h.piece hfits ht
  assign hvalue h := h.assign hvalue
  admitted _ h := ⟨h.settings, h.challengeTtl, h.sessionTtl, h.challenges, h.sessions, h.maxRequests, h.window⟩
  admins _ h := ⟨h.settings, h.challengeTtl, h.sessionTtl, h.challenges, h.sessions, h.maxRequests, h.window⟩

theorem bounded_init (h0 : ∀ s : Setting, s.InBounds (env.initial s)) : Bounded env (.init env) where
  settings := h0
  challengeTtl := (inBounds_ticks (h0 .challengeTtlSeconds)).2
  sessionTtl := (inBounds_ticks (h0 .sessionTtlSeconds)).2
  challenges _ _ _ h := by cases h
  sessions _ _ _ h := by cases h
  maxRequests _ hc := absurd hc List.not_mem_nil
  window _ hc := absurd hc List.not_mem_nil

theorem Counted.admitted_of_alone (h : Counted env w) (hb : Bounded env w) {before after : List LimitCall}
    {c : LimitCall} (heq : w.calls = before ++ c :: after)
    (halone : ∀ c' ∈ before, c.SameKey c' → 3600 * (env.ticksPerSecond : ℤ) ≤ c.time - c'.time) :
    c.admitted = true := by
  have hc : c ∈ w.calls := heq ▸ List.mem_append_right _ (List.mem_cons_self ..)
  have hold : (standing (c.hitsOf before)).filter (fun h' => c.hit.time - h'.time < c.hit.window) = [] := by
    refine List.filter_eq_nil_iff.2 fun h' hh' => ?_
    obtain ⟨c', hc', hkey, rfl⟩ := LimitCall.mem_hitsOf.1 ((standing_sublist _).mem hh')
    have hle : c.window ≤ c.time - c'.time := (hb.window c hc).2.trans (halone c' hc' hkey)
    have hcast : (c.window : ℚ) ≤ ((c.time - c'.time : ℤ) : ℚ) := Int.cast_le.2 hle
    rw [Int.cast_sub] at hcast
    rw [decide_eq_true_iff, not_lt]
    exact hcast
  rw [h.exact before c after heq, hitsOf_concat_self, standing_concat, hold]
  exact (hb.maxRequests c hc).1

/-- Where the settings at start-up are in bounds, in every run all settings stay in bounds. So whatever an
admin sets, no key gets more than 10000 requests within a second, a request after an hour without one is
let through, and neither a challenge nor a session is valid for more than a day. -/
theorem protected_of_reaches (h0 : ∀ s : Setting, s.InBounds (env.initial s)) {ok : World → Act → Prop}
    (h : Reaches (step env) ok (.init env) w) : Protected env w where
  inBounds := (stable_bounded.of_reaches (bounded_init h0) h).settings
  limited c _ _ hshort :=
    have hcounted := stable_counted.of_reaches counted_init h
    have hbounded := stable_bounded.of_reaches (bounded_init h0) h
    length_admittedIn_le hcounted.sorted hcounted.exact c fun c' hc' _ _ _ =>
      ⟨(hbounded.maxRequests c' hc').2, hshort.trans_le (hbounded.window c' hc').1⟩
  served _ _ _ heq halone :=
    (stable_counted.of_reaches counted_init h).admitted_of_alone
      (stable_bounded.of_reaches (bounded_init h0) h) heq halone
  challenges := (stable_bounded.of_reaches (bounded_init h0) h).challenges
  sessions := (stable_bounded.of_reaches (bounded_init h0) h).sessions

/-- An admin sets everything to 1 while a client sends verify requests. -/
def lowerActs : List Act :=
  [.arrive 0 .verify ⟨none, some "1.2.3.4"⟩ "a.example", .putConfig 0 (some "admin") fun _ => 1,
    .write 0, .write 0, .write 0, .write 0, .write 0,
    .arrive 1 .verify ⟨none, some "1.2.3.4"⟩ "a.example", .write 0, .write 0, .proceed 0 "",
    .arrive 2 .verify ⟨none, some "1.2.3.4"⟩ "a.example"]

theorem exists_reaches_lower : ∃ w, Reaches (step .default) anyAct (.init .default) w ∧
    decide (w.calls.map LimitCall.admitted = [true, false, true]) = true :=
  exists_reaches_of_run (step .default) anyAct (.init .default) lowerActs _ (fun _ _ _ => trivial)
    (by decide +kernel)

theorem limitsExact_of_reaches_lower : ∃ w, Reaches (step .default) anyAct (.init .default) w ∧
    w.calls.map LimitCall.admitted = [true, false, true] ∧ LimitsExact .default w := by
  obtain ⟨w, hr, hw⟩ := exists_reaches_lower
  exact ⟨w, hr, of_decide_eq_true hw, limitsExact_of_reaches hr⟩

theorem protected_of_reaches_lower : ∃ w, Reaches (step .default) anyAct (.init .default) w ∧
    w.calls.map LimitCall.admitted = [true, false, true] ∧ Protected .default w := by
  obtain ⟨w, hr, hw⟩ := exists_reaches_lower
  exact ⟨w, hr, of_decide_eq_true hw, protected_of_reaches (fun s => by cases s <;> decide) hr⟩

end Tier1.Service

end Embassy
