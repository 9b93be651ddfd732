import Embassy.RateLimiter
import Embassy.Tier1

/-!
# Tier 1 as a service (`verify/main.py`)

The Tier 1 endpoints behind their rate limiter, with the clock they share and the settings an admin can
change while they run. A request first calls `check_rate_limit`; the rest of its handler is
`Tier1.step`, at the next reading of the clock. A call of a `Store` method is one piece: nothing comes between
the read of the hits and their store, or between a look-up and its `del`, though no lock forbids it.
`PUT /tier1/admin-config` writes the six settings one by one, with other requests in between. Settings are in
seconds, the clock counts ticks.

Leaving out the rate limiter and the settings gives a run of `Tier1.step` (`tier1_of_reaches`).
-/

namespace Embassy
open Lib

namespace Tier1

inductive Endpoint
  | challenge
  | verify
  deriving DecidableEq, Repr

def Endpoint.bucket : Endpoint → RateLimiter.Bucket
  | challenge => .challenge
  | verify => .verify

/-- The attributes of `Store` an admin can set. -/
inductive Setting
  | challengeTtlSeconds
  | sessionTtlSeconds
  | challengeRateLimitMax
  | challengeRateLimitWindow
  | verifyRateLimitMax
  | verifyRateLimitWindow
  deriving DecidableEq, Repr

namespace Setting

/-- In the order `update_tier1_admin_config` writes them. -/
def all : List Setting :=
  [challengeTtlSeconds, sessionTtlSeconds, challengeRateLimitMax, challengeRateLimitWindow,
    verifyRateLimitMax, verifyRateLimitWindow]

theorem mem_all (s : Setting) : s ∈ all := by cases s <;> decide

/-- The `le` of the field of `Tier1ConfigUpdate`. -/
def max : Setting → ℤ
  | challengeTtlSeconds | sessionTtlSeconds => 86400
  | challengeRateLimitMax | verifyRateLimitMax => 10000
  | challengeRateLimitWindow | verifyRateLimitWindow => 3600

def InBounds (s : Setting) (value : ℤ) : Prop := 0 < value ∧ value ≤ s.max

instance (s : Setting) (value : ℤ) : Decidable (s.InBounds value) := inferInstanceAs (Decidable (_ ∧ _))

end Setting

def Endpoint.rateLimitMax : Endpoint → Setting
  | challenge => .challengeRateLimitMax
  | verify => .verifyRateLimitMax

def Endpoint.rateLimitWindow : Endpoint → Setting
  | challenge => .challengeRateLimitWindow
  | verify => .verifyRateLimitWindow

/-- A validated body of `PUT /tier1/admin-config`. -/
structure Tier1ConfigUpdate where
  value : Setting → ℤ
  inBounds : ∀ s : Setting, s.InBounds (value s)

/-- What `_client_ip` reads of a request. -/
structure Request where
  xForwardedFor : Option String
  clientHost : Option String
  deriving DecidableEq, Repr

/-- `_client_ip`; an empty header is falsy. -/
def Request.clientIp (r : Request) : String :=
  match r.xForwardedFor.filter (· ≠ "") with
  | some forwarded => strip forwarded
  | none => r.clientHost.getD "unknown"

/-- The handler's next piece, where the rate limiter said `limited`. -/
def Endpoint.act (e : Endpoint) (i : ℕ) (limited : Bool) (domain token : String) (now : ℤ) : Tier1.Act :=
  match e with
  | .challenge => .challenge i limited domain token now
  | .verify => .lookUp i limited domain now

namespace Service

/-- The settings at start-up, the clock, and what is not part of Tier 1. -/
structure Env where
  clock : ℕ → ℤ
  clock_mono : Monotone clock
  ticksPerSecond : ℕ
  ticksPerSecond_pos : 0 < ticksPerSecond
  /-- `ADMIN_INTERNAL_TOKEN`; the module does not load without one. -/
  adminInternalToken : String
  adminInternalToken_ne : adminInternalToken ≠ ""
  /-- What the environment variables say. -/
  initial : Setting → ℤ
  validateDomain : String → Except String String

inductive Answer
  /-- `HTTPException` -/
  | error (status : ℕ) (detail : String)
  /-- `compare_digest` raises `TypeError`. -/
  | internalServerError
  /-- pydantic refuses the body. -/
  | unprocessable
  /-- `_tier1_config_dict` -/
  | config (settings : Setting → ℤ)

/-- `secrets.compare_digest` on strings, `none` where it raises `TypeError`. -/
def compareDigest (a b : String) : Option Bool :=
  if a.toList.all (·.toNat < 128) ∧ b.toList.all (·.toNat < 128) then some (a = b) else none

/-- `require_internal_admin`, with the answer of a refused request. -/
def requireInternalAdmin (adminInternalToken : String) (xAdminToken : Option String) : Except Answer Unit :=
  match xAdminToken.filter (· ≠ "") with
  | none => .error (.error 403 "forbidden")
  | some token =>
    match compareDigest token adminInternalToken with
    | none => .error .internalServerError
    | some false => .error (.error 403 "forbidden")
    | some true => .ok ()

/-- Where a request of the admin stands. -/
inductive AdminHandler
  /-- The settings still to be written. -/
  | writing (body : Tier1ConfigUpdate) (rest : List Setting)
  | answered (a : Answer)

/-- A call of `check_rate_limit`: the limit it was called with, in ticks, and what it returned. -/
structure LimitCall where
  endpoint : Endpoint
  clientIp : String
  time : ℤ
  maxRequests : ℤ
  window : ℤ
  /-- How many settings had been written before. -/
  written : ℕ
  admitted : Bool
  deriving DecidableEq, Repr

structure World where
  tier1 : Tier1.World
  settings : Setting → ℤ
  rateLimitHits : RateLimiter.Hits
  /-- Requests past the rate limiter, with the domain they name. -/
  admitted : ℕ → Option (Endpoint × String)
  admins : ℕ → Option AdminHandler
  /-- How many readings of the clock were taken. -/
  reads : ℕ
  /-- The calls of `check_rate_limit` so far, ... -/
  calls : List LimitCall
  /-- ... and the settings written. -/
  writes : List (Setting × ℤ)

variable (env : Env)

def World.init : World where
  tier1 := .init (env.initial .challengeTtlSeconds * env.ticksPerSecond)
    (env.initial .sessionTtlSeconds * env.ticksPerSecond)
  settings := env.initial
  rateLimitHits := .empty
  admitted _ := none
  admins _ := none
  reads := 0
  calls := []
  writes := []

namespace World

/-- The reading the next `time.time()` takes. -/
def now (w : World) : ℤ := env.clock w.reads

def tick (w : World) : World := { w with reads := w.reads + 1 }

/-- `check_rate_limit` of an endpoint, with the settings as they are. -/
def checkRateLimit (e : Endpoint) (clientIp : String) (w : World) : Bool × World :=
  let maxRequests := w.settings e.rateLimitMax
  let window := w.settings e.rateLimitWindow * env.ticksPerSecond
  let (ok, hits) := RateLimiter.checkRateLimit (w.now env) w.rateLimitHits e.bucket.name clientIp
    maxRequests.toNat window
  (ok, { w.tick with
    rateLimitHits := hits
    calls := w.calls ++ [⟨e, clientIp, w.now env, maxRequests, window, w.writes.length, ok⟩] })

def assign (s : Setting) (value : ℤ) (w : World) : World :=
  let w := { w with settings := Function.update w.settings s value, writes := w.writes ++ [(s, value)] }
  match s with
  | .challengeTtlSeconds =>
    { w with tier1.store.challengeTtlSeconds := value * env.ticksPerSecond }
  | .sessionTtlSeconds => { w with tier1.store.sessionTtlSeconds := value * env.ticksPerSecond }
  | _ => w

def gotoAdmin (i : ℕ) (h : AdminHandler) (w : World) : World :=
  { w with admins := Function.update w.admins i (some h) }

/-- Let the rest of a Tier 1 handler run. -/
def forward (act : Tier1.Act) (w : World) : Option World :=
  (Tier1.step env.validateDomain w.tier1 act).map fun tier1 => { w with tier1 := tier1 }

/-- Request `i` is past the rate limiter no more. -/
def dismiss (i : ℕ) (w : World) : World := { w with admitted := Function.update w.admitted i none }

end World

inductive Act
  /-- `POST /tier1/challenge` or `/tier1/verify` arrives and calls `check_rate_limit`. -/
  | arrive (i : ℕ) (e : Endpoint) (r : Request) (domain : String)
  /-- The rest of `create_challenge`, or of `verify_challenge` up to its fetch; `token` is what `secrets`
  makes up. -/
  | proceed (i : ℕ) (token : String)
  | fetch (i : ℕ)
  | fetched (i : ℕ) (result : Option (ℤ × List UInt8))
  | compare (i : ℕ) (sessionToken : String)
  /-- `GET /tier1/check` -/
  | check (i : ℕ) (authorization : Option String)
  /-- `GET /tier1/admin-config` -/
  | getConfig (i : ℕ) (xAdminToken : Option String)
  /-- `PUT /tier1/admin-config` arrives, ... -/
  | putConfig (i : ℕ) (xAdminToken : Option String) (body : Setting → ℤ)
  /-- ... writes its next setting, and answers after the last. -/
  | write (i : ℕ)

/-- One step of one request. A piece of a handler takes one reading of the clock at most. -/
def step (w : World) : Act → Option World
  | .arrive i e r domain =>
    match w.tier1.handlers i, w.admitted i with
    | none, none =>
      let (ok, w') := w.checkRateLimit env e r.clientIp
      if ok then some { w' with admitted := Function.update w'.admitted i (some (e, domain)) }
      else w'.forward env (e.act i true domain "" (w.now env))
    | _, _ => none
  | .proceed i token =>
    match w.admitted i with
    | some (e, domain) =>
      (w.dismiss i).tick.forward env (e.act i false domain token (w.now env))
    | none => none
  | .fetch i => w.forward env (.fetch i)
  | .fetched i result => w.forward env (.fetched i result)
  | .compare i sessionToken => w.tick.forward env (.compare i sessionToken (w.now env))
  | .check i authorization =>
    match w.admitted i with
    | none => w.tick.forward env (.check i authorization (w.now env))
    | some _ => none
  | .getConfig i xAdminToken =>
    match w.admins i with
    | some _ => none
    | none =>
      match requireInternalAdmin env.adminInternalToken xAdminToken with
      | .error a => some (w.gotoAdmin i (.answered a))
      | .ok () => some (w.gotoAdmin i (.answered (.config w.settings)))
  | .putConfig i xAdminToken body =>
    match w.admins i with
    | some _ => none
    | none =>
      match requireInternalAdmin env.adminInternalToken xAdminToken with
      | .error a => some (w.gotoAdmin i (.answered a))
      | .ok () =>
        if h : ∀ s ∈ Setting.all, s.InBounds (body s) then
          some (w.gotoAdmin i (.writing ⟨body, fun s => h s s.mem_all⟩ Setting.all))
        else some (w.gotoAdmin i (.answered .unprocessable))
  | .write i =>
    match w.admins i with
    | some (.writing body (s :: rest)) =>
      some ((w.assign env s (body.value s)).gotoAdmin i (.writing body rest))
    | some (.writing _ []) => some (w.gotoAdmin i (.answered (.config w.settings)))
    | _ => none

theorem natCast_mono : Monotone fun n : ℕ => (n : ℤ) :=
  fun _ _ h => Int.ofNat_le.2 h

/-- The defaults, with a reading a second. -/
def Env.default : Env where
  clock n := n
  clock_mono := natCast_mono
  ticksPerSecond := 1
  ticksPerSecond_pos := Nat.one_pos
  adminInternalToken := "admin"
  adminInternalToken_ne := by decide
  initial
    | .challengeTtlSeconds => 300
    | .sessionTtlSeconds => 3600
    | .challengeRateLimitMax | .verifyRateLimitMax => 10
    | .challengeRateLimitWindow | .verifyRateLimitWindow => 60
  validateDomain := .ok

variable {env : Env}

theorem tier1_forward {w w' : World} {a : Tier1.Act} (h : w.forward env a = some w') :
    Tier1.step env.validateDomain w.tier1 a = some w'.tier1 := by
  obtain ⟨t, ht, rfl⟩ := Option.map_eq_some_iff.1 h
  exact ht

theorem tier1_step {w w' : World} {act : Act} (h : step env w act = some w') :
    w'.tier1 = w.tier1 ∨ ∃ a, Tier1.step env.validateDomain w.tier1 a = some w'.tier1 := by
  cases act with
  | arrive i e r domain =>
    simp only [step] at h
    split at h <;> [skip; cases h]
    split at h
    · obtain rfl := Option.some.inj h
      exact .inl rfl
    · exact .inr ⟨_, (tier1_forward h :)⟩
  | proceed i token =>
    simp only [step] at h
    split at h <;> [exact .inr ⟨_, (tier1_forward h :)⟩; cases h]
  | fetch i => exact .inr ⟨_, (tier1_forward h :)⟩
  | fetched i result => exact .inr ⟨_, (tier1_forward h :)⟩
  | compare i sessionToken =>
    simp only [step] at h
    exact .inr ⟨_, (tier1_forward h :)⟩
  | check i authorization =>
    simp only [step] at h
    split at h <;> [exact .inr ⟨_, (tier1_forward h :)⟩; cases h]
  | getConfig i xAdminToken =>
    simp only [step] at h
    split at h <;> [cases h; skip]
    split at h <;> obtain rfl := Option.some.inj h <;> exact .inl rfl
  | putConfig i xAdminToken body =>
    simp only [step] at h
    split at h <;> [cases h; skip]
    split at h
    · obtain rfl := Option.some.inj h
      exact .inl rfl
    · split at h <;> obtain rfl := Option.some.inj h <;> exact .inl rfl
  | write i =>
    simp only [step] at h
    split at h <;> [skip; skip; cases h] <;> obtain rfl := Option.some.inj h
    · rename_i body s rest _
      cases s with
      | challengeTtlSeconds =>
        exact .inr ⟨.configure (body.value .challengeTtlSeconds * env.ticksPerSecond)
          w.tier1.store.sessionTtlSeconds, rfl⟩
      | sessionTtlSeconds =>
        exact .inr ⟨.configure w.tier1.store.challengeTtlSeconds
          (body.value .sessionTtlSeconds * env.ticksPerSecond), rfl⟩
      | _ => exact .inl rfl
    · exact .inl rfl

/-- Every run of the service is one of the Tier 1 endpoints. -/
theorem tier1_of_reaches {ok : World → Act → Prop} {w : World} (h : Reaches (step env) ok (.init env) w) :
    Reaches (Tier1.step env.validateDomain) anyAct (World.init env).tier1 w.tier1 := by
  refine h.invariant (I := fun w => Reaches (Tier1.step env.validateDomain) anyAct
    (World.init env).tier1 w.tier1) .refl fun w act w' hr _ hw => ?_
  rcases tier1_step hw with heq | ⟨a, ha⟩
  · exact heq ▸ hr
  · exact hr.snoc trivial ha

/-- The reading the piece of a handler takes. -/
def readingOf : Tier1.Act → Option ℤ
  | .challenge _ _ _ _ now | .lookUp _ _ _ now | .compare _ _ now | .check _ _ now => some now
  | .fetch _ | .fetched .. | .configure .. => none

/-- The piece is not a change of settings, and its reading is the last one taken. -/
def Fits (env : Env) (w : World) (a : Tier1.Act) : Prop :=
  (∀ x y, a ≠ .configure x y) ∧ ∀ now, readingOf a = some now → ∃ k, w.reads = k + 1 ∧ now = env.clock k

theorem now_le_tick {w : World} : w.now env ≤ w.tick.now env := env.clock_mono (Nat.le_succ _)

theorem Fits.le_now {w : World} {a : Tier1.Act} (h : Fits env w a) {now : ℤ} (hnow : readingOf a = some now) :
    now ≤ w.now env := by
  obtain ⟨k, hk, rfl⟩ := h.2 now hnow
  exact env.clock_mono (by omega)

/-- A property of states that everything a step does keeps. -/
structure Stable (env : Env) (P : World → Prop) : Prop where
  tick : ∀ {w}, P w → P w.tick
  limit : ∀ {w} e clientIp, P w → P (w.checkRateLimit env e clientIp).2
  piece : ∀ {w a t}, Fits env w a → Tier1.step env.validateDomain w.tier1 a = some t → P w →
    P { w with tier1 := t }
  assign : ∀ {w s value}, s.InBounds value → P w → P (w.assign env s value)
  admitted : ∀ {w} f, P w → P { w with admitted := f }
  admins : ∀ {w} f, P w → P { w with admins := f }

namespace Stable
variable {P : World → Prop} {w w' : World}

theorem forward (hs : Stable env P) {a : Tier1.Act} (hfits : Fits env w a) (h : P w)
    (hw : w.forward env a = some w') : P w' := by
  obtain ⟨t, ht, rfl⟩ := Option.map_eq_some_iff.1 hw
  exact hs.piece hfits ht h

theorem fits_act (e : Endpoint) (i : ℕ) (limited : Bool) (domain token : String) {now : ℤ} {k : ℕ}
    (hk : w.reads = k + 1) (hnow : now = env.clock k) : Fits env w (e.act i limited domain token now) := by
  cases e <;> exact ⟨by rintro _ _ ⟨⟩, by rintro _ ⟨⟩; exact ⟨k, hk, hnow⟩⟩

theorem step (hs : Stable env P) {act : Act} (h : P w) (hw : step env w act = some w') : P w' := by
  cases act with
  | arrive i e r domain =>
    simp only [Service.step] at hw
    split at hw <;> [skip; cases hw]
    split at hw
    · obtain rfl := Option.some.inj hw
      exact hs.admitted _ (hs.limit e r.clientIp h)
    · exact hs.forward (fits_act e i true domain "" rfl rfl) (hs.limit e r.clientIp h) hw
  | proceed i token =>
    simp only [Service.step] at hw
    split at hw <;> [rename_i e domain _; cases hw]
    exact hs.forward (fits_act e i false domain token rfl rfl) (hs.tick (hs.admitted _ h)) hw
  | fetch i => exact hs.forward ⟨by rintro _ _ ⟨⟩, by rintro _ ⟨⟩⟩ h hw
  | fetched i result => exact hs.forward ⟨by rintro _ _ ⟨⟩, by rintro _ ⟨⟩⟩ h hw
  | compare i sessionToken =>
    exact hs.forward ⟨by rintro _ _ ⟨⟩, by rintro _ ⟨⟩; exact ⟨w.reads, rfl, rfl⟩⟩ (hs.tick h) hw
  | check i authorization =>
    simp only [Service.step] at hw
    split at hw <;> [skip; cases hw]
    exact hs.forward ⟨by rintro _ _ ⟨⟩, by rintro _ ⟨⟩; exact ⟨w.reads, rfl, rfl⟩⟩ (hs.tick h) hw
  | getConfig i xAdminToken =>
    simp only [Service.step] at hw
    split at hw <;> [cases hw; skip]
    split at hw <;> obtain rfl := Option.some.inj hw <;> exact hs.admins _ h
  | putConfig i xAdminToken body =>
    simp only [Service.step] at hw
    split at hw <;> [cases hw; skip]
    split at hw
    · obtain rfl := Option.some.inj hw
      exact hs.admins _ h
    · split at hw <;> obtain rfl := Option.some.inj hw <;> exact hs.admins _ h
  | write i =>
    simp only [Service.step] at hw
    split at hw <;> [rename_i body s rest _; skip; cases hw] <;> obtain rfl := Option.some.inj hw
    · exact hs.admins _ (hs.assign (body.inBounds s) h)
    · exact hs.admins _ h

theorem of_reaches (hs : Stable env P) {ok : World → Act → Prop} (h : P (.init env))
    (hr : Reaches (Service.step env) ok (.init env) w) : P w :=
  hr.invariant h fun _ _ _ h _ hw => hs.step h hw

end Stable

/-! ### What a piece of a handler does to the store -/

/-- The store and the events after a piece of a handler that takes the reading `now`. -/
inductive Effect (w : Tier1.World) (now : Option ℤ) : Store → List Event → Prop
  /-- Nothing is issued or dropped. -/
  | quiet {es} (h : ∀ e ∈ es, e.token? = none) : Effect w now w.store es
  | dropChallenge {d k x t} (hnow : now = some t) (hd : w.store.challenges.get? d = some (k, x))
      (hexp : x < t) : Effect w now { w.store with challenges := w.store.challenges.erase d } []
  | dropSession {s d x t} (hnow : now = some t) (hs : w.store.sessions.get? s = some (d, x))
      (hexp : x < t) : Effect w now { w.store with sessions := w.store.sessions.erase s } []
  | challenge {d k t} (hnow : now = some t) (hfresh : w.Fresh k) :
      Effect w now (w.store.issueChallenge k d t).2 [.challenged d k (t + w.store.challengeTtlSeconds)]
  | session {i d k s t} (hnow : now = some t) (hfresh : w.Fresh s) :
      Effect w now (w.store.issueSession s d t).2 [.opened i d k s t w.store.sessionTtlSeconds]

theorem Effect.ttls {w : Tier1.World} {now : Option ℤ} {s : Store} {es : List Event}
    (h : Effect w now s es) : s.challengeTtlSeconds = w.store.challengeTtlSeconds ∧
      s.sessionTtlSeconds = w.store.sessionTtlSeconds := by
  cases h <;> exact ⟨rfl, rfl⟩

/-- What a piece answers with a session, it opened. -/
def Opens (w w' : Tier1.World) (es : List Event) : Prop :=
  ∀ i s d expiresIn x, w'.handlers i = some (.answered (.session s d expiresIn x)) →
    w.handlers i = some (.answered (.session s d expiresIn x)) ∨
      ∃ k t, .opened i d k s t expiresIn ∈ es ∧ x = t + expiresIn

theorem opens_goto {w w' : Tier1.World} {i : ℕ} {h : Handler} {es : List Event}
    (hw : w'.handlers = Function.update w.handlers i (some h))
    (hh : ∀ s d expiresIn x, h = .answered (.session s d expiresIn x) →
      ∃ k t, .opened i d k s t expiresIn ∈ es ∧ x = t + expiresIn) : Opens w w' es := by
  intro j s d expiresIn x hj
  rw [hw, Function.update_apply] at hj
  split at hj <;> rename_i hji
  · subst hji
    exact .inr (hh s d expiresIn x (Option.some.inj hj))
  · exact .inl hj

theorem effect_of_step {validateDomain : String → Except String String} {w w' : Tier1.World}
    {a : Tier1.Act} (hw : Tier1.step validateDomain w a = some w') (hconf : ∀ x y, a ≠ .configure x y) :
    ∃ es, w'.trace = w.trace ++ es ∧ Effect w (readingOf a) w'.store es ∧ Opens w w' es := by
  have hanswer : ∀ {v : Tier1.World} (i : ℕ) (status : ℕ) (detail : String),
      v.trace = w.trace → v.handlers = w.handlers → Effect w (readingOf a) v.store [] →
      ∃ es, (v.answer i (.error status detail)).trace = w.trace ++ es ∧
        Effect w (readingOf a) (v.answer i (.error status detail)).store es ∧
        Opens w (v.answer i (.error status detail)) es := by
    intro v i status detail ht hh he
    refine ⟨[], by rw [List.append_nil]; exact ht, he,
      opens_goto (i := i) (h := .answered (.error status detail)) ?_ (by rintro _ _ _ _ ⟨⟩)⟩
    exact congrArg (fun f => Function.update f i _) hh
  have hquiet : Effect w (readingOf a) w.store [] := .quiet (by simp)
  cases a with
  | challenge i limited domain token now =>
    simp only [Tier1.step] at hw
    split at hw <;> [cases hw; skip]
    split at hw
    · obtain rfl := Option.some.inj hw; exact hanswer i _ _ rfl rfl hquiet
    · split at hw
      · obtain rfl := Option.some.inj hw; exact hanswer i _ _ rfl rfl hquiet
      · split at hw <;> [rename_i hfresh; cases hw]
        obtain rfl := Option.some.inj hw
        exact ⟨_, rfl, .challenge rfl hfresh, opens_goto (i := i) rfl (by rintro _ _ _ _ ⟨⟩)⟩
  | lookUp i limited domain now =>
    simp only [Tier1.step] at hw
    split at hw <;> [cases hw; skip]
    split at hw
    · obtain rfl := Option.some.inj hw; exact hanswer i _ _ rfl rfl hquiet
    · split at hw
      · obtain rfl := Option.some.inj hw; exact hanswer i _ _ rfl rfl hquiet
      · rename_i d _
        unfold Store.getPendingChallenge at hw
        split at hw <;> rename_i hfound <;> obtain rfl := Option.some.inj hw
        · refine hanswer (v := { w with store := _ }) i _ _ rfl rfl ?_
          split at hfound
          · cases hfound; exact hquiet
          · rename_i k x hd
            split at hfound <;> rename_i hexp <;> cases hfound
            exact .dropChallenge rfl hd hexp
        · refine ⟨_, rfl, ?_, opens_goto (i := i) rfl (by rintro _ _ _ _ ⟨⟩)⟩
          split at hfound
          · cases hfound
          · split at hfound <;> cases hfound
            exact .quiet (by simp [Event.token?])
  | fetch i =>
    simp only [Tier1.step] at hw
    split at hw <;> [skip; cases hw]
    obtain rfl := Option.some.inj hw
    exact ⟨_, rfl, .quiet (by simp [Event.token?]), opens_goto (i := i) rfl (by rintro _ _ _ _ ⟨⟩)⟩
  | fetched i result =>
    simp only [Tier1.step] at hw
    split at hw <;> [skip; skip; cases hw] <;> obtain rfl := Option.some.inj hw
    · exact hanswer i _ _ rfl rfl hquiet
    · exact ⟨_, rfl, .quiet (by simp [Event.token?]), opens_goto (i := i) rfl (by rintro _ _ _ _ ⟨⟩)⟩
  | compare i s now =>
    simp only [Tier1.step] at hw
    split at hw <;> [skip; cases hw]
    split at hw
    · obtain rfl := Option.some.inj hw; exact hanswer i _ _ rfl rfl hquiet
    · split at hw <;> [rename_i hfresh; cases hw]
      obtain rfl := Option.some.inj hw
      refine ⟨_, rfl, .session rfl hfresh, opens_goto (i := i) rfl ?_⟩
      rintro _ _ _ _ ⟨⟩
      exact ⟨_, _, List.mem_singleton_self _, rfl⟩
  | check i authorization now =>
    simp only [Tier1.step] at hw
    split at hw <;> [cases hw; skip]
    split at hw
    · obtain rfl := Option.some.inj hw; exact hanswer i _ _ rfl rfl hquiet
    · unfold Store.checkSession at hw
      split at hw <;> rename_i hfound <;> obtain rfl := Option.some.inj hw
      · refine hanswer (v := { w with store := _ }) i _ _ rfl rfl ?_
        split at hfound
        · cases hfound; exact hquiet
        · rename_i d x hs
          split at hfound <;> rename_i hexp <;> cases hfound
          exact .dropSession rfl hs hexp
      · refine ⟨[], by simp [World.answer, World.goto], ?_, opens_goto (i := i) rfl (by rintro _ _ _ _ ⟨⟩)⟩
        split at hfound
        · cases hfound
        · split at hfound <;> cases hfound
          exact hquiet
  | configure x y => exact absurd rfl (hconf x y)

end Service

end Tier1

end Embassy
