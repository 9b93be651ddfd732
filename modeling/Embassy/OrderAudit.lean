import Embassy.Introspection

/-!
# Introspection fails closed, and every order is audited

`introspect_access_token` catches one exception of `json.loads` and calls `get` on whatever it returns,
so it fails closed exactly on the bodies that decode to an object or raise `JSONDecodeError`
(`failsClosed_iff`). An order that gets through introspection is audited once, unless the claims name a
list or an object as the client (`audited_iff`).
-/

namespace Embassy
open Lib

/-- `introspect_access_token` returns claims that are active, or raises `InvalidToken`. -/
def FailsClosed (loads : List UInt8 → Except PyExc Json) (status : ℕ) (body : List UInt8) : Prop :=
  (∃ claims, introspectAccessToken loads status body = .ok claims ∧
    Json.get? claims "active" = some (.bool true)) ∨
  introspectAccessToken loads status body = .error .invalidToken

/-- A 200 whose body is an object, or what `json.loads` calls undecodable; or another status. -/
def AnswerReadable (loads : List UInt8 → Except PyExc Json) (status : ℕ) (body : List UInt8) : Prop :=
  status = 200 → loads body = .error .jsonDecodeError ∨ ∃ claims, loads body = .ok (.obj claims)

/-- The token that an order with these headers has introspected. -/
def introspectedToken (headers : Headers) : Option String :=
  if headers.sslClientVerify = some "SUCCESS" then bearerToken headers.authorization else none

/-- One audit event of its own, and a 401 unless the token was confirmed. -/
structure Audited (run : OrderRun) (confirmed : Prop) : Prop where
  once : ∃ e, run.events = [e] ∧ (e.outcome = .rejected ∨ e.outcome = .accepted ∨ e.outcome = .queued)
  refused : ¬ confirmed → ∃ detail, run.answer = .ok (.error 401 detail)

section
variable (text : PyExc → List UInt8) (loads : List UInt8 → Except PyExc Json)

/-- The order and the endpoint's answer `o` to its token, if it asks for one. -/
def orderRun (headers : Headers) (o : Attempt) (body : Tier3OrderRequest) (reads : OrderReads) : OrderRun :=
  createTier3Order body reads headers fun _ => introspect text loads o

/-- The token of the order was confirmed active. -/
def Confirmed (headers : Headers) (o : Attempt) : Prop :=
  (introspectedToken headers).isSome ∧ ∃ claims, introspect text loads o = .ok claims

/-- The answer can be read: its status and body are got from `_post_introspect` and are readable, and an
active token's client is no list and no object. -/
def IntrospectionReadable (o : Attempt) : Prop :=
  ¬ o.posted.escapes ∧
    ∀ body, o.posted = .response 200 body → AnswerReadable loads 200 body ∧
      ∀ claims, loads body = .ok (.obj claims) → Json.get? claims "active" = some (.bool true) →
        Json.Hashable (some (orderClient claims))

end

section
variable {text : PyExc → List UInt8} {loads : List UInt8 → Except PyExc Json} {status : ℕ} {body : List UInt8}
  {claims : List (String × Json)} {o : Attempt} {headers : Headers} {order : Tier3OrderRequest}
  {reads : OrderReads}

theorem introspectAccessToken_eq_ok : introspectAccessToken loads status body = .ok claims ↔
    status = 200 ∧ loads body = .ok (.obj claims) ∧ Json.get? claims "active" = some (.bool true) := by
  unfold introspectAccessToken
  by_cases hs : status = 200
  · rw [if_neg (not_not.2 hs)]
    cases hl : loads body with
    | error e => cases e <;> simp
    | ok v =>
      cases v with
      | obj data =>
        simp only [Except.ok.injEq, Json.obj.injEq]
        split <;> rename_i hactive
        · constructor
          · rintro ⟨⟩
            exact ⟨hs, rfl, hactive⟩
          · rintro ⟨-, rfl, -⟩
            rfl
        · constructor
          · rintro ⟨⟩
          · rintro ⟨-, rfl, h⟩
            exact absurd h hactive
      | _ => simp
  · rw [if_pos hs]
    simp [hs]

theorem introspectAccessToken_raises_iff : (∃ e, introspectAccessToken loads status body = .error (.raised e)) ↔
    ¬ AnswerReadable loads status body := by
  unfold introspectAccessToken AnswerReadable
  by_cases hs : status = 200
  · rw [if_neg (not_not.2 hs)]
    cases hl : loads body with
    | error e => cases e <;> simp [hs]
    | ok v =>
      cases v with
      | obj data =>
        simp only [hs, Except.ok.injEq, Json.obj.injEq, exists_eq', or_true, implies_true, not_true, iff_false]
        split <;> simp
      | _ => simp [hs]
  · rw [if_pos hs]
    simp [hs]

theorem failsClosed_iff : FailsClosed loads status body ↔ AnswerReadable loads status body := by
  rw [← not_iff_not, ← introspectAccessToken_raises_iff]
  constructor
  · intro h
    cases hr : introspectAccessToken loads status body with
    | ok claims => exact absurd (.inl ⟨claims, hr, (introspectAccessToken_eq_ok.1 hr).2.2⟩) h
    | error e =>
      cases e with
      | invalidToken => exact absurd (.inr hr) h
      | raised e => exact ⟨e, rfl⟩
  · rintro ⟨e, he⟩ (⟨claims, hclaims, -⟩ | hinvalid)
    · rw [he] at hclaims
      cases hclaims
    · rw [he] at hinvalid
      cases hinvalid

theorem postIntrospect_posted (text : PyExc → List UInt8) (o : Attempt) :
    postIntrospect text o.posted = postIntrospect text o := by
  rw [postIntrospect, Attempt.posted, Attempt.urlopen_final]
  rfl

theorem postIntrospect_of_escapes (text : PyExc → List UInt8) (h : o.escapes) : ∃ e, postIntrospect text o = .error e := by
  match o with
  | .timeout (.reading status) | .dropped (.reading status) | .closed status _ =>
    have h : ¬ (200 ≤ status ∧ status < 300) := h
    exact ⟨_, by simp only [postIntrospect, urlopen, Opened.ofReply, h, if_false]; rfl⟩

theorem postIntrospect_response (status : ℕ) (body : List UInt8) :
    postIntrospect text (.response status body) = .ok (status, body) := by
  by_cases h : 200 ≤ status ∧ status < 300
  · simp only [postIntrospect, urlopen, Opened.ofReply, h, and_self, if_true]
    rfl
  · simp only [postIntrospect, urlopen, Opened.ofReply, h, if_false]
    rfl

theorem postIntrospect_of_no_response (text : PyExc → List UInt8) (h : ¬ o.posted.escapes)
    (hne : ∀ status body, o.posted ≠ .response status body) : ∃ body, postIntrospect text o = .ok (0, body) := by
  rw [← postIntrospect_posted]
  have hredirect := Attempt.final_ne_redirect .post [] o
  change ∀ code url body next, o.posted ≠ _ at hredirect
  generalize o.posted = o at h hne hredirect
  match o with
  | .refused | .connectTimeout | .timeout .sending | .timeout .waiting | .dropped .sending
  | .dropped .waiting => exact ⟨_, rfl⟩
  | .timeout (.reading status) | .dropped (.reading status) | .closed status _ =>
    have hok : 200 ≤ status ∧ status < 300 := not_not.1 h
    exact ⟨_, by simp only [postIntrospect, urlopen, Opened.ofReply, hok, and_self, if_true]; rfl⟩
  | .response status body => exact absurd rfl (hne status body)
  | .redirect code url body next => exact absurd rfl (hredirect code url body next)

/-! ### What an order records -/

theorem introspect_of_response {status : ℕ} {body : List UInt8} (h : o.posted = .response status body) :
    introspect text loads o = introspectAccessToken loads status body := by
  rw [introspect, ← postIntrospect_posted, h, postIntrospect_response]

/-- The order is confirmed by a 200 with active claims, and by nothing else. -/
theorem introspect_eq_ok : introspect text loads o = .ok claims ↔ ∃ body, o.posted = .response 200 body ∧
    loads body = .ok (.obj claims) ∧ Json.get? claims "active" = some (.bool true) := by
  constructor
  · intro h
    by_cases hresp : ∃ status body, o.posted = .response status body
    · obtain ⟨status, body, hresp⟩ := hresp
      rw [introspect_of_response hresp, introspectAccessToken_eq_ok] at h
      obtain ⟨rfl, hloads, hactive⟩ := h
      exact ⟨body, hresp, hloads, hactive⟩
    · by_cases hesc : o.posted.escapes
      · obtain ⟨e, he⟩ := postIntrospect_of_escapes text hesc
        rw [introspect, ← postIntrospect_posted, he] at h
        cases h
      · obtain ⟨body, hb⟩ := postIntrospect_of_no_response text hesc
          fun status body heq => hresp ⟨status, body, heq⟩
        rw [introspect, hb] at h
        cases h
  · rintro ⟨body, hresp, hloads, hactive⟩
    rw [introspect_of_response hresp]
    exact introspectAccessToken_eq_ok.2 ⟨rfl, hloads, hactive⟩

theorem introspect_raises_iff : (∃ e, introspect text loads o = .error (.raised e)) ↔
    o.posted.escapes ∨ ∃ body, o.posted = .response 200 body ∧ ¬ AnswerReadable loads 200 body := by
  by_cases hesc : o.posted.escapes
  · refine iff_of_true ?_ (.inl hesc)
    obtain ⟨e, he⟩ := postIntrospect_of_escapes text hesc
    exact ⟨e, by rw [introspect, ← postIntrospect_posted, he]⟩
  · by_cases hresp : ∃ status body, o.posted = .response status body
    · obtain ⟨status, body, hresp⟩ := hresp
      rw [introspect_of_response hresp, introspectAccessToken_raises_iff, hresp]
      rw [hresp] at hesc
      simp only [hesc, false_or, Attempt.response.injEq]
      constructor
      · intro h
        obtain rfl : status = 200 := by
          by_contra hne
          exact h fun heq => absurd heq hne
        exact ⟨body, ⟨rfl, rfl⟩, h⟩
      · rintro ⟨body', ⟨rfl, rfl⟩, h⟩
        exact h
    · obtain ⟨body, hb⟩ := postIntrospect_of_no_response text hesc
        fun status body heq => hresp ⟨status, body, heq⟩
      refine iff_of_false ?_ ?_
      · rintro ⟨e, he⟩
        rw [introspect, hb] at he
        cases he
      · rintro (h | ⟨body', h, -⟩)
        · exact hesc h
        · exact hresp ⟨_, _, h⟩

theorem audited_turnedAway (clientId : Json) (reason : String) (actionId : Option String) (status : ℕ)
    (detail : String) {confirmed : Prop} (h : ¬ confirmed → status = 401) :
    Audited (turnedAway order clientId reason actionId status detail) confirmed where
  once := ⟨_, rfl, .inl rfl⟩
  refused hn := ⟨detail, by rw [turnedAway, h hn]⟩

theorem audited_confirmedOrder_iff {confirmed : Prop} (hc : confirmed) (client : Json) :
    Audited (confirmedOrder order reads client) confirmed ↔ Json.Hashable (some client) := by
  have hne : ∀ e, ¬ Audited (⟨[], .error e⟩ : OrderRun) confirmed := by
    rintro e ⟨⟨_, hnil, -⟩, -⟩
    cases hnil
  have haway : ∀ clientId reason actionId status detail,
      Audited (turnedAway order clientId reason actionId status detail) confirmed :=
    fun _ _ _ _ _ => audited_turnedAway _ _ _ _ _ fun hn => absurd hc hn
  cases client with
  | arr elems => exact iff_of_false (hne _) id
  | obj members => exact iff_of_false (hne _) id
  | null | bool | num => exact iff_of_true (haway ..) trivial
  | str clientId =>
    refine iff_of_true ?_ trivial
    simp only [confirmedOrder, grantOf]
    cases reads.grants.get? clientId with
    | none => exact haway ..
    | some limit =>
      simp only [Option.map_some, grantedOrder]
      split
      · exact ⟨⟨_, rfl, .inr (.inl rfl)⟩, fun hn => absurd hc hn⟩
      · split
        · exact haway ..
        · exact ⟨⟨_, rfl, .inr (.inr rfl)⟩, fun hn => absurd hc hn⟩

theorem audited_of_no_token (h : introspectedToken headers = none) :
    Audited (orderRun text loads headers o order reads) (Confirmed text loads headers o) := by
  unfold introspectedToken at h
  unfold orderRun createTier3Order
  split at h <;> rename_i hssl
  · rw [if_neg (not_not.2 hssl), h]
    exact audited_turnedAway _ _ _ _ _ fun _ => rfl
  · rw [if_pos hssl]
    exact audited_turnedAway _ _ _ _ _ fun _ => rfl

theorem orderRun_of_token {token : String} (h : introspectedToken headers = some token) :
    orderRun text loads headers o order reads =
      match introspect text loads o with
      | .error .invalidToken =>
        turnedAway order (.str "unknown") "token rejected by introspection (revoked, disabled, or expired)" none
          401 "invalid, expired, or revoked access token"
      | .error (.raised e) => ⟨[], .error e⟩
      | .ok claims => confirmedOrder order reads (orderClient claims) := by
  unfold introspectedToken at h
  split at h <;> [rename_i hssl; cases h]
  unfold orderRun createTier3Order
  rewrite [if_neg (not_not.2 hssl), h]
  rfl

theorem audited_iff (headers : Headers) (o : Attempt) (order : Tier3OrderRequest) (reads : OrderReads) :
    Audited (orderRun text loads headers o order reads) (Confirmed text loads headers o) ↔
      ((introspectedToken headers).isSome → IntrospectionReadable loads o) := by
  cases ht : introspectedToken headers with
  | none => simp [audited_of_no_token ht]
  | some token =>
    rw [orderRun_of_token ht]
    simp only [Option.isSome_some, true_implies]
    cases hi : introspect text loads o with
    | ok claims =>
      have hconf : Confirmed text loads headers o := ⟨by rw [ht]; rfl, claims, hi⟩
      simp only [audited_confirmedOrder_iff hconf]
      obtain ⟨body, ho, hloads, hactive⟩ := introspect_eq_ok.1 hi
      constructor
      · intro hhash
        refine ⟨by rw [ho]; exact id, fun body' heq => ?_⟩
        rw [ho] at heq
        cases heq
        refine ⟨fun _ => .inr ⟨claims, hloads⟩, fun claims' hclaims _ => ?_⟩
        rw [hloads] at hclaims
        cases hclaims
        exact hhash
      · exact fun h => (h.2 body ho).2 claims hloads hactive
    | error e =>
      have hconf : ¬ Confirmed text loads headers o := by
        rintro ⟨-, claims, hclaims⟩
        rw [hi] at hclaims
        cases hclaims
      have hnone : ∀ body claims, o.posted = .response 200 body → loads body = .ok (.obj claims) →
          Json.get? claims "active" ≠ some (.bool true) := by
        intro body claims ho hloads hactive
        rw [introspect_eq_ok.2 ⟨body, ho, hloads, hactive⟩] at hi
        cases hi
      have hraises : IntrospectionReadable loads o ↔ ¬ ∃ e, introspect text loads o = .error (.raised e) := by
        rw [introspect_raises_iff, not_or, IntrospectionReadable]
        refine and_congr_right fun _ => ?_
        constructor
        · rintro h ⟨body, ho, hn⟩
          exact hn (h body ho).1
        · intro h body ho
          refine ⟨?_, fun claims hloads hactive => absurd hactive (hnone body claims ho hloads)⟩
          by_contra hn
          exact h ⟨body, ho, hn⟩
      rw [hraises, hi]
      cases e with
      | invalidToken =>
        refine iff_of_true (audited_turnedAway _ _ _ _ _ fun _ => rfl) ?_
        rintro ⟨e, ⟨⟩⟩
      | raised e =>
        refine iff_of_false ?_ fun h => h ⟨e, rfl⟩
        rintro ⟨⟨_, hnil, -⟩, -⟩
        cases hnil

end

/-- For every answer of the endpoint: introspection fails closed, and an order is audited once and refused
unless it was confirmed, if and only if the answer can be read. -/
theorem introspection_iff (limits : JsonLimits) (text : PyExc → List UInt8) :
    (∀ status body, FailsClosed limits.loads status body ↔ AnswerReadable limits.loads status body) ∧
    ∀ headers o order reads,
      Audited (orderRun text limits.loads headers o order reads) (Confirmed text limits.loads headers o) ↔
        ((introspectedToken headers).isSome → IntrospectionReadable limits.loads o) :=
  ⟨fun _ _ => failsClosed_iff, audited_iff⟩

/-- One byte that no UTF-8 text has. -/
def badByte : List UInt8 := [0xFF]

/-- A 200 with it raises `UnicodeDecodeError` through `create_tier3_order`, before any audit event. -/
theorem not_failsClosed : ¬ ∀ (limits : JsonLimits) (text : PyExc → List UInt8),
    (∀ status body, FailsClosed limits.loads status body) ∧
      ∀ headers o order reads,
        Audited (orderRun text limits.loads headers o order reads) (Confirmed text limits.loads headers o) := by
  intro h
  have hclosed := (h ⟨1000, 4300⟩ fun _ => []).1 200 badByte
  have hraise : introspectAccessToken (JsonLimits.loads ⟨1000, 4300⟩) 200 badByte =
      .error (.raised .unicodeDecodeError) := rfl
  rcases hclosed with ⟨claims, hclaims, -⟩ | hinvalid
  · rw [hraise] at hclaims
    cases hclaims
  · rw [hraise] at hinvalid
    cases hinvalid

end Embassy
