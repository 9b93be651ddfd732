import Embassy.JsonLoads
import Embassy.KeycloakClient

/-!
# Only partner clients are touched

`get_secret`, `regenerate_secret`, `delete_client` and `set_client_enabled` act on a client only after the
same call was shown a partner's representation of it, and send nothing but that look and token requests before
(`PartnerGated`), whatever Keycloak answers, unless `urllib` follows a redirect before that (`GateClear`).
-/

namespace Embassy
open Lib

namespace Admin

open Json (get?)

/-- Confidential, service account only, no interactive flow, and not one of the built-in clients. -/
structure PartnerRep (rep : List (String × Json)) : Prop where
  hashable : Json.Hashable (get? rep "clientId")
  notBuiltin : ∀ s ∈ builtinClientIds, get? rep "clientId" ≠ some (.str s)
  confidential : get? rep "publicClient" = some (.bool false)
  serviceAccount : get? rep "serviceAccountsEnabled" = some (.bool true)
  noStandardFlow : get? rep "standardFlowEnabled" = some (.bool false)
  noImplicitFlow : get? rep "implicitFlowEnabled" = some (.bool false)
  noDirectAccess : get? rep "directAccessGrantsEnabled" = some (.bool false)

theorem isFlag_eq_true_iff {rep : List (String × Json)} {name : String} {b : Bool} :
    isFlag rep name b = true ↔ get? rep name = some (.bool b) := by
  unfold isFlag
  rcases get? rep name with _ | _ | b' | _ | _ | _ | _ <;> simp [eq_comm]

theorem inSet_eq_false_iff {strs : List String} {v : Option Json} :
    Json.inSet strs v = .ok false ↔ Json.Hashable v ∧ ∀ s ∈ strs, v ≠ some (.str s) := by
  rcases v with _ | _ | _ | _ | s | _ | _ <;> simp [Json.inSet, Json.Hashable]
  exact ⟨fun h t ht hst => h (hst ▸ ht), fun h hs => h s hs rfl⟩

theorem isPartnerClient_obj (rep : List (String × Json)) :
    isPartnerClient (.obj rep) = (Json.inSet builtinClientIds (get? rep "clientId")).bind fun builtin =>
      .ok (!builtin && (isFlag rep "publicClient" false && isFlag rep "serviceAccountsEnabled" true &&
        isFlag rep "standardFlowEnabled" false && isFlag rep "implicitFlowEnabled" false &&
        isFlag rep "directAccessGrantsEnabled" false)) := by
  change (Json.inSet _ _).bind _ = _
  congr 1
  funext builtin
  cases builtin <;> rfl

theorem isPartnerClient_eq_true_iff {v : Json} :
    isPartnerClient v = .ok true ↔ ∃ rep, v = .obj rep ∧ PartnerRep rep := by
  constructor
  · intro h
    rcases v with _ | _ | _ | _ | _ | rep
    case obj =>
      rw [isPartnerClient_obj] at h
      obtain ⟨builtin, hin, h⟩ := Json.bind_eq_ok h
      simp only [Except.ok.injEq, Bool.and_eq_true, Bool.not_eq_true', isFlag_eq_true_iff] at h
      obtain ⟨rfl, ⟨⟨⟨h1, h2⟩, h3⟩, h4⟩, h5⟩ := h
      obtain ⟨hh, hb⟩ := inSet_eq_false_iff.mp hin
      exact ⟨rep, rfl, hh, hb, h1, h2, h3, h4, h5⟩
    all_goals cases h
  · rintro ⟨rep, rfl, hrep⟩
    rw [isPartnerClient_obj, inSet_eq_false_iff.mpr ⟨hrep.hashable, hrep.notBuiltin⟩]
    simp only [Except.bind, isFlag_eq_true_iff.mpr hrep.confidential, isFlag_eq_true_iff.mpr hrep.serviceAccount,
      isFlag_eq_true_iff.mpr hrep.noStandardFlow, isFlag_eq_true_iff.mpr hrep.noImplicitFlow,
      isFlag_eq_true_iff.mpr hrep.noDirectAccess, Bool.and_self, Bool.not_false]

/-! ### What is sent, and what comes back -/

/-- The four functions that act on a client by its uuid. -/
inductive ClientAction
  | getSecret
  | regenerateSecret
  | deleteClient
  | setClientEnabled (enabled : Bool)

/-- `urllib` follows a redirect that the answer to a request of this method is. -/
def Redirects (method : Method) (a : Answer) : Prop := a.attempt.followed method [] ≠ []

section
variable (services : Services) (text : PyExc → List UInt8) (loads : List UInt8 → Except PyExc Json)
  (audience uuid : String)

/-- The request reads or changes the client. -/
def ActsOn (q : Request) : ClientAction → Prop
  | .getSecret => q.Is services .get (Request.secretUrl services uuid)
  | .regenerateSecret => q.Is services .post (Request.secretUrl services uuid)
  | .deleteClient => q.Is services .delete (Request.clientUrl services uuid)
  | .setClientEnabled _ => q.Is services .put (Request.clientUrl services uuid)

/-- What a call exchanges with Keycloak. -/
def exchanged (answers : ℕ → Answer) : ClientAction → List (Request × Answer)
  | .getSecret => ((getSecret text loads audience uuid).run answers).1
  | .regenerateSecret => ((regenerateSecret text loads audience uuid).run answers).1
  | .deleteClient => ((deleteClient text loads audience uuid).run answers).1
  | .setClientEnabled enabled => ((setClientEnabled text loads audience uuid enabled).run answers).1

/-- The `GET` for the uuid, answered 200 with a partner's representation. -/
structure Approves (rep : List (String × Json)) (x : Request × Answer) : Prop where
  asked : x.1.Is services .get (Request.clientUrl services uuid)
  answered : ∃ body, x.2.attempt = .response 200 body ∧ loads body = .ok (.obj rep)
  partner : PartnerRep rep

def Approved (before : List (Request × Answer)) : Prop := ∃ x ∈ before, ∃ rep, Approves services loads uuid rep x

/-- What may be sent after `before`: a request for a token, the first look at the client, or, once a look
has approved it, the action. -/
inductive Permitted (act : ClientAction) (before : List (Request × Answer)) (q : Request) : Prop
  | token (hq : q.Is services .post (Request.tokenUrl services))
  | look (hq : q.Is services .get (Request.clientUrl services uuid))
      (hfirst : ∀ x ∈ before, x.1.Is services .post (Request.tokenUrl services))
  | act (hq : ActsOn services uuid q act) (happroved : Approved services loads uuid before)

/-- Every request of every call is permitted, the `GET` for a redirect is only sent once the client is approved,
and the client id of a deletion is that of the representation it was approved by. -/
structure PartnerGated (answers : ℕ → Answer) : Prop where
  permitted : ∀ (act : ClientAction) (before : List (Request × Answer)) (x : Request × Answer)
    (after : List (Request × Answer)),
    exchanged text loads audience uuid answers act = before ++ x :: after →
      Permitted services loads uuid act before x.1
  followed : ∀ (act : ClientAction) (before : List (Request × Answer)) (x : Request × Answer)
    (after : List (Request × Answer)),
    exchanged text loads audience uuid answers act = before ++ x :: after →
      Redirects x.1.method x.2 → Approved services loads uuid before
  reported : ∀ result, ((deleteClient text loads audience uuid).run answers).2 = .ok result →
    result.ok = true → result.notFound = false →
      ∃ x ∈ exchanged text loads audience uuid answers .deleteClient, ∃ rep,
        Approves services loads uuid rep x ∧ result.value = get? rep "clientId"

/-- A response to a token request that has an object. -/
def TokenBody (o : Attempt) (members : List (String × Json)) : Prop :=
  ∃ status body, o = .response status body ∧ 200 ≤ status ∧ status < 300 ∧ loads body = .ok (.obj members)

/-- The last response to a token request has a token. -/
def GivesToken (a : Answer) : Prop :=
  ∃ members token, TokenBody loads (a.attempt.final .post []) members ∧ get? members "access_token" = some token ∧
    token ≠ .null

/-- The response to the first token request does not redirect, and neither does that to the `GET`, if a token is
given for it. -/
def GateClear (answers : ℕ → Answer) : Prop :=
  ¬ Redirects .post (answers 0) ∧ (GivesToken loads (answers 0) → ¬ Redirects .get (answers 1))

variable {services text loads audience uuid}

variable {x : Request × Answer} {status : ℕ} {body : List UInt8}

theorem exchange_outcome (text : PyExc → List UInt8) (x : Request × Answer) :
    exchange text (x.1, ⟨outcome x, x.2.headers⟩) = exchange text x := by
  rw [exchange, outcome, Attempt.urlopen_final]
  rfl

theorem exchange_of_response (text : PyExc → List UInt8) (h : outcome x = .response status body) :
    exchange text x = .ok (status, body) := by
  rw [← exchange_outcome, h]
  by_cases h : 200 ≤ status ∧ status < 300
  · simp only [exchange, urlopen, Opened.ofReply, h, and_self, if_true]
    rfl
  · simp only [exchange, urlopen, Opened.ofReply, h, if_false]
    rfl

theorem exchange_of_escapes (text : PyExc → List UInt8) (h : (outcome x).escapes) : ∃ e, exchange text x = .error e := by
  rw [← exchange_outcome]
  generalize outcome x = o at h
  match o with
  | .timeout (.reading status) | .dropped (.reading status) | .closed status _ =>
    have h : ¬ (200 ≤ status ∧ status < 300) := h
    exact ⟨_, by simp only [exchange, urlopen, Opened.ofReply, h, if_false]; rfl⟩

theorem exchange_of_no_response (text : PyExc → List UInt8) (hesc : ¬ (outcome x).escapes)
    (h : ∀ status body, outcome x ≠ .response status body) : ∃ e, exchange text x = .ok (0, text e) := by
  rw [← exchange_outcome]
  have hredirect := Attempt.final_ne_redirect x.1.method [] x.2.attempt
  change ∀ code url body next, outcome x ≠ _ at hredirect
  generalize outcome x = o at hesc h hredirect
  match o with
  | .refused | .connectTimeout | .timeout .sending | .timeout .waiting | .dropped .sending
  | .dropped .waiting => exact ⟨_, rfl⟩
  | .timeout (.reading status) | .dropped (.reading status) | .closed status _ =>
    have hok : 200 ≤ status ∧ status < 300 := not_not.mp hesc
    exact ⟨_, by simp only [exchange, urlopen, Opened.ofReply, hok, and_self, if_true]; rfl⟩
  | .response status body => exact absurd rfl (h status body)
  | .redirect code url body next => exact absurd rfl (hredirect code url body next)

theorem outcome_of_exchange (h : exchange text x = .ok (status, body)) (hstatus : status ≠ 0) :
    outcome x = .response status body := by
  by_cases hesc : (outcome x).escapes
  · obtain ⟨e, he⟩ := exchange_of_escapes text hesc
    rw [he] at h
    cases h
  · by_cases hr : ∃ status' body', outcome x = .response status' body'
    · obtain ⟨status', body', hr⟩ := hr
      rw [exchange_of_response text hr] at h
      cases h
      exact hr
    · obtain ⟨e, he⟩ := exchange_of_no_response text hesc fun s b hsb => hr ⟨s, b, hsb⟩
      rw [he] at h
      cases h
      exact absurd rfl hstatus

theorem tokenBody_unique {o : Attempt} {members members' : List (String × Json)} (h : TokenBody loads o members)
    (h' : TokenBody loads o members') : members = members' := by
  obtain ⟨_, _, rfl, -, -, hl⟩ := h
  obtain ⟨_, _, heq, -, -, hl'⟩ := h'
  cases heq
  rw [hl] at hl'
  cases hl'
  rfl

theorem adminToken_final (loads : List UInt8 → Except PyExc Json) (o : Attempt) :
    adminToken loads (o.final .post []) = adminToken loads o := by
  rw [adminToken, Attempt.urlopen_final]
  rfl

theorem adminToken_cases (loads : List UInt8 → Except PyExc Json) (a : Answer) :
    (∃ members token, TokenBody loads (a.attempt.final .post []) members ∧
      get? members "access_token" = some token ∧ token ≠ .null ∧ adminToken loads a.attempt = (some token, "")) ∨
    (∃ members, TokenBody loads (a.attempt.final .post []) members ∧ get? members "access_token" = some .null ∧
      adminToken loads a.attempt = (none, "")) ∨
    (∀ members, TokenBody loads (a.attempt.final .post []) members → get? members "access_token" = none) ∧
      ∃ err, err ≠ "" ∧ adminToken loads a.attempt = (none, err) := by
  have hredirect := Attempt.final_ne_redirect .post [] a.attempt
  rw [← adminToken_final]
  generalize a.attempt.final .post [] = o at hredirect ⊢
  by_cases hbody : ∃ members, TokenBody loads o members
  · obtain ⟨members, hbody⟩ := hbody
    have htoken : adminToken loads o = accessToken (.obj members) := by
      obtain ⟨status, body, rfl, h2, h3, hl⟩ := hbody
      simp only [adminToken, urlopen, Opened.ofReply, h2, h3, and_self, if_true, Reply.read, hl]
    rw [htoken]
    rcases hget : get? members "access_token" with _ | token
    · refine .inr (.inr ⟨fun m hm => ?_, "could not authenticate to Keycloak admin API", by decide, ?_⟩)
      · rw [← tokenBody_unique hbody hm, hget]
      · simp only [accessToken, hget]
    · by_cases hnull : token = .null
      · subst hnull
        exact .inr (.inl ⟨members, hbody, hget, by simp only [accessToken, hget]⟩)
      · refine .inl ⟨members, token, hbody, hget, hnull, ?_⟩
        simp only [accessToken, hget]
  · refine .inr (.inr ⟨fun m hm => absurd ⟨m, hm⟩ hbody, ?_⟩)
    have hfixed : "could not authenticate to Keycloak admin API" ≠ "" := by decide
    have hhttp (status : ℕ) : s!"could not authenticate to Keycloak admin API (HTTP {status})" ≠ "" := by simp
    have hunreached : "could not reach Keycloak" ≠ "" := by decide
    have hunread {o : Attempt} {r : Reply} {e : PyExc} (ho : urlopen .post [] o = .ofReply r) (he : r.read = .error e) :
        ∃ err, err ≠ "" ∧ adminToken loads o = (none, err) := by
      rw [adminToken, ho, Opened.ofReply]
      by_cases hstatus : 200 ≤ r.status ∧ r.status < 300
      · simp only [hstatus, and_self, if_true, he]
        cases e <;> first | exact ⟨_, hfixed, rfl⟩ | exact ⟨_, hunreached, rfl⟩
      · simp only [hstatus, if_false]
        exact ⟨_, hhttp r.status, rfl⟩
    cases o with
    | redirect code url body next => exact absurd rfl (hredirect code url body next)
    | response status body =>
      by_cases hstatus : 200 ≤ status ∧ status < 300
      · simp only [adminToken, urlopen, Opened.ofReply, hstatus, and_self, if_true, Reply.read]
        rcases hl : loads body with e | v
        · exact ⟨_, hfixed, rfl⟩
        · rcases v
          case obj members => exact absurd ⟨members, status, body, rfl, hstatus.1, hstatus.2, hl⟩ hbody
          all_goals exact ⟨_, hfixed, rfl⟩
      · simp only [adminToken, urlopen, Opened.ofReply, hstatus, if_false]
        exact ⟨_, hhttp status, rfl⟩
    | closed status body => exact hunread rfl rfl
    | timeout phase | dropped phase =>
      cases phase with
      | sending => exact ⟨_, hunreached, rfl⟩
      | waiting => exact ⟨_, hfixed, rfl⟩
      | reading status => exact hunread rfl rfl
    | refused | connectTimeout => exact ⟨_, hunreached, rfl⟩

theorem adminToken_isSome_iff (loads : List UInt8 → Except PyExc Json) (a : Answer) :
    (adminToken loads a.attempt).1.isSome ↔ GivesToken loads a := by
  rcases adminToken_cases loads a with
    ⟨members, token, hbody, hget, hnull, h⟩ | ⟨members, hbody, hget, h⟩ | ⟨hnone, err, -, h⟩ <;> rw [h]
  · exact iff_of_true rfl ⟨members, token, hbody, hget, hnull⟩
  · refine iff_of_false (by simp) ?_
    rintro ⟨members', token, hbody', hget', hnull⟩
    rw [tokenBody_unique hbody' hbody, hget] at hget'
    exact hnull (Option.some.inj hget').symm
  · refine iff_of_false (by simp) ?_
    rintro ⟨members', token, hbody', hget', -⟩
    rw [hnone members' hbody'] at hget'
    cases hget'

/-! ### The gate -/

/-- Only the answers after an approval redirect. -/
def NoEarly (services : Services) (loads : List UInt8 → Except PyExc Json) (uuid : String)
    (t : List (Request × Answer)) : Prop :=
  ∀ before x after, t = before ++ x :: after → Redirects x.1.method x.2 → Approved services loads uuid before

variable {t t' : List (Request × Answer)}

theorem NoEarly.of_append (h : NoEarly services loads uuid (t ++ t')) : NoEarly services loads uuid t :=
  fun before x after ht => h before x (after ++ t') (by rw [ht, List.append_assoc, List.cons_append])

theorem Approved.mono (h : Approved services loads uuid t) (hsub : t ⊆ t') : Approved services loads uuid t' := by
  obtain ⟨x, hx, happ⟩ := h
  exact ⟨x, hsub hx, happ⟩

theorem not_approved_token (nested : Bool) (a : Answer) : ¬ Approved services loads uuid [(.token nested, a)] := by
  rintro ⟨x, hx, rep, happ⟩
  obtain rfl := List.mem_singleton.mp hx
  exact absurd happ.asked.1 (by rintro ⟨⟩)

theorem wp_withToken {α : Type} {P : List (Request × Answer) → Request → Prop}
    {post : List (Request × Answer) → Except PyExc (Result α) → Prop} {before : List (Request × Answer)}
    {nested : Bool} {k : Json → Program α} (hP : P before (.token nested))
    (hk : ∀ a token, GivesToken loads a → Dialogue.wp P post (before ++ [(.token nested, a)]) (k token))
    (hfail : ∀ a err, ¬ GivesToken loads a → post (before ++ [(.token nested, a)]) (.ok (.failed err))) :
    Dialogue.wp P post before (withToken loads nested k) := by
  refine ⟨hP, fun a => ?_⟩
  dsimp only
  have hgives := adminToken_isSome_iff loads a
  rcases h : adminToken loads a.attempt with ⟨_ | token, err⟩ <;> rw [h] at hgives
  · exact hfail a err fun ht => by cases hgives.mpr ht
  · exact hk a token (hgives.mp rfl)

theorem ok_of_answered {α : Type} {good : List ℕ} {refused : ℕ → String} {other : ℕ → Option (Result α)}
    {k : List UInt8 → Except PyExc (Result α)} {r : Result α}
    (h : answered text good refused other k x = .ok r) :
    ∃ status body, exchange text x = .ok (status, body) ∧
      (other status = some r ∨ status ∈ good ∧ k body = .ok r ∨ r = .failed (refused status)) := by
  obtain ⟨⟨status, body⟩, hex, h⟩ := Json.bind_eq_ok h
  refine ⟨status, body, hex, ?_⟩
  dsimp only at h
  split at h
  · cases h
    exact .inl ‹_›
  · split at h
    · exact .inr (.inl ⟨‹_›, h⟩)
    · cases h
      exact .inr (.inr rfl)

theorem clientId_of_toClientInfo {rep : List (String × Json)} {client : ClientInfo}
    (h : toClientInfo audience rep = .ok client) : get? rep "clientId" = some client.clientId := by
  obtain ⟨uuid, -, h⟩ := Json.bind_eq_ok h
  obtain ⟨clientId, hid, h⟩ := Json.bind_eq_ok h
  obtain ⟨mapper, -, h⟩ := Json.bind_eq_ok h
  cases h
  unfold field at hid
  split at hid
  · cases hid
    assumption
  · cases hid

theorem partner_of_clientDetail {v : Json} {detail : Result ClientInfo}
    (h : clientDetail audience v = .ok detail) (hfound : detail.notFound = false) :
    ∃ rep client, v = .obj rep ∧ PartnerRep rep ∧ detail.value = some client ∧
      get? rep "clientId" = some client.clientId := by
  obtain ⟨partner, hp, h⟩ := Json.bind_eq_ok h
  cases partner with
  | false =>
    cases h
    cases hfound
  | true =>
    obtain ⟨rep, rfl, hrep⟩ := isPartnerClient_eq_true_iff.mp hp
    obtain ⟨client, hclient, h⟩ := Json.bind_eq_ok h
    cases h
    exact ⟨rep, client, rfl, hrep, rfl, clientId_of_toClientInfo hclient⟩

theorem response_of_outcome (h : outcome x = .response 200 body) (hr : ¬ Redirects x.1.method x.2) :
    x.2.attempt = .response 200 body :=
  Attempt.eq_response_of_final h (not_not.mp hr) fun code => by cases code <;> decide

/-- An answer that makes `get_client` return a client approves it, unless it redirects. -/
theorem approves_of_found (services : Services) {token : Json} {a : Answer} {detail : Result ClientInfo}
    (h : answered text [200] (fun status => s!"Keycloak returned HTTP {status} fetching the client")
      (fun status => if status = 404 then some .missing else none)
      (fun body => decoded loads body "Keycloak returned an unparseable client" (clientDetail audience))
      (.client false token uuid, a) = .ok detail)
    (hok : detail.ok = true) (hfound : detail.notFound = false) (hr : ¬ Redirects .get a) :
    ∃ rep client, Approves services loads uuid rep (.client false token uuid, a) ∧ detail.value = some client ∧
      get? rep "clientId" = some client.clientId := by
  obtain ⟨status, body, hex, hother | ⟨hgood, hk⟩ | hfailed⟩ := ok_of_answered h
  · split_ifs at hother
    cases hother
    cases hfound
  · obtain rfl := List.mem_singleton.mp hgood
    have hresponse := response_of_outcome (outcome_of_exchange hex (by decide)) hr
    unfold decoded at hk
    split at hk
    · cases hk
      cases hok
    · cases hk
    · rename_i v hv
      obtain ⟨rep, client, rfl, hrep, hvalue, hid⟩ := partner_of_clientDetail hk hfound
      exact ⟨rep, client, ⟨⟨rfl, rfl⟩, ⟨body, hresponse, hv⟩, hrep⟩, hvalue, hid⟩
  · subst hfailed
    cases hok

/-- After `get_client`: if it returned a client, an exchange has approved it. -/
def Looked (services : Services) (loads : List UInt8 → Except PyExc Json) (uuid : String)
    (before : List (Request × Answer)) (r : Except PyExc (Result ClientInfo)) : Prop :=
  NoEarly services loads uuid before → ∀ detail, r = .ok detail → detail.ok = true → detail.notFound = false →
    ∃ x ∈ before, ∃ rep client, Approves services loads uuid rep x ∧ detail.value = some client ∧
      get? rep "clientId" = some client.clientId

/-- What a call that redirects no early may send. -/
def PermittedIf (services : Services) (loads : List UInt8 → Except PyExc Json) (uuid : String) (act : ClientAction)
    (before : List (Request × Answer)) (q : Request) : Prop :=
  NoEarly services loads uuid before → Permitted services loads uuid act before q

theorem wp_getClient (act : ClientAction) :
    Dialogue.wp (PermittedIf services loads uuid act) (Looked services loads uuid) []
      (getClient text loads audience false uuid) := by
  refine wp_withToken (fun _ => .token ⟨rfl, rfl⟩) (fun a token _ => ?_) fun a err _ => ?_
  · refine ⟨fun _ => .look ⟨rfl, rfl⟩ fun x hx => ?_, fun a' hclear detail h hok hfound => ?_⟩
    · obtain rfl := List.mem_singleton.mp hx
      exact ⟨rfl, rfl⟩
    · have hr : ¬ Redirects .get a' := fun hr =>
        not_approved_token false a (hclear [(.token false, a)] (.client false token uuid, a') [] rfl hr)
      obtain ⟨rep, client, happ, hdetail⟩ := approves_of_found services h hok hfound hr
      exact ⟨(.client false token uuid, a'), by simp, rep, client, happ, hdetail⟩
  · rintro - detail h hok -
    cases h
    cases hok

theorem wp_onPartner {α : Type} (act : ClientAction) {post : List (Request × Answer) → Except PyExc (Result α) → Prop}
    {q : Json → Request} {good : List ℕ} {refused : ℕ → String} {other : ℕ → Option (Result α)}
    {k : Option ClientInfo → List UInt8 → Except PyExc (Result α)}
    (hacts : ∀ token, ActsOn services uuid (q token) act)
    (hnot : ∀ t (r : Result α), r.ok = false ∨ r.notFound = true → post t (.ok r)) (herr : ∀ t e, post t (.error e))
    (hact : ∀ t client x, (NoEarly services loads uuid t → ∃ x ∈ t, ∃ rep, Approves services loads uuid rep x ∧
      ∃ c, client = some c ∧ get? rep "clientId" = some c.clientId) →
        post (t ++ [x]) (answered text good refused other (k client) x)) :
    Dialogue.wp (PermittedIf services loads uuid act) post []
      (onPartner text loads audience uuid fun client token => single text (q token) good refused other (k client)) := by
  refine Dialogue.wp_bind (Dialogue.wp_mono (wp_getClient act) fun t r hlooked => ?_)
  rcases r with e | detail
  · exact herr t e
  · dsimp only
    split_ifs with hmissing hok
    · exact hnot t _ (.inr rfl)
    · exact hnot t _ (.inl rfl)
    · have happ : NoEarly services loads uuid t → ∃ x ∈ t, ∃ rep, Approves services loads uuid rep x ∧
          ∃ c, detail.value = some c ∧ get? rep "clientId" = some c.clientId := by
        intro hclear
        obtain ⟨x, hx, rep, client, happ, hdetail⟩ :=
          hlooked hclear detail rfl (by simpa using hok) (by simpa using hmissing)
        exact ⟨x, hx, rep, happ, client, hdetail⟩
      refine wp_withToken (fun _ => .token ⟨rfl, rfl⟩) (fun a token _ => ?_) fun a err _ => hnot _ _ (.inl rfl)
      refine ⟨fun hclear => .act (hacts token) ?_, fun a' => hact _ _ _ fun hclear => ?_⟩
      · obtain ⟨x, hx, rep, happ, -⟩ := happ hclear.of_append
        exact ⟨x, List.mem_append_left _ hx, rep, happ⟩
      · obtain ⟨x, hx, rep, happ⟩ := happ hclear.of_append
        exact ⟨x, List.mem_append_left _ hx, rep, happ⟩

/-- The client id of a deletion is that of a representation that was approved. -/
def ReportsChecked (services : Services) (loads : List UInt8 → Except PyExc Json) (uuid : String)
    (sent : List (Request × Answer)) (r : Except PyExc (Result Json)) : Prop :=
  NoEarly services loads uuid sent → ∀ result, r = .ok result → result.ok = true → result.notFound = false →
    ∃ x ∈ sent, ∃ rep, Approves services loads uuid rep x ∧ result.value = get? rep "clientId"

theorem wp_deleteClient :
    Dialogue.wp (PermittedIf services loads uuid .deleteClient) (ReportsChecked services loads uuid) []
      (deleteClient text loads audience uuid) := by
  refine wp_onPartner .deleteClient (fun _ => ⟨rfl, rfl⟩) (fun t r hr _ result h hok hfound => ?_)
    (fun t e _ result h => by cases h) fun t client x happ hclear result h hok hfound => ?_
  · cases h
    rcases hr with hr | hr
    · rw [hr] at hok
      cases hok
    · rw [hr] at hfound
      cases hfound
  · obtain ⟨y, hy, rep, happroves, c, rfl, hid⟩ := happ hclear.of_append
    obtain ⟨status, body, -, hother | ⟨-, hk⟩ | hfailed⟩ := ok_of_answered h
    · cases hother
    · cases hk
      exact ⟨y, List.mem_append_left _ hy, rep, happroves, hid.symm⟩
    · subst hfailed
      cases hok

theorem partnerGated_iff_noEarly (services : Services) (text : PyExc → List UInt8)
    (loads : List UInt8 → Except PyExc Json) (audience uuid : String) (answers : ℕ → Answer) :
    PartnerGated services text loads audience uuid answers ↔
      ∀ act, NoEarly services loads uuid (exchanged text loads audience uuid answers act) := by
  refine ⟨fun h => h.followed, fun h => ⟨fun act before x after hsent => ?_, h, ?_⟩⟩
  · have hclear : NoEarly services loads uuid before := (hsent ▸ h act).of_append
    have hwp : ∀ {α : Type} {d : Program α},
        Dialogue.wp (PermittedIf services loads uuid act) (fun _ _ => True) [] d →
          (d.run answers).1 = before ++ x :: after → Permitted services loads uuid act before x.1 :=
      fun h hsent => h.sent answers hsent hclear
    cases act
    case deleteClient => exact hwp (Dialogue.wp_mono wp_deleteClient fun _ _ _ => trivial) hsent
    all_goals
      exact hwp (wp_onPartner _ (fun _ => ⟨rfl, rfl⟩) (fun _ _ _ => trivial) (fun _ _ => trivial)
        fun _ _ _ _ => trivial) hsent
  · exact wp_deleteClient.ends answers (h .deleteClient)

/-! ### When nothing redirects early -/

/-- How a call goes: it gets no token, or looks at the client, and goes on only if the client is approved. -/
def Goes (services : Services) (loads : List UInt8 → Except PyExc Json) (uuid : String)
    (t : List (Request × Answer)) : Prop :=
  (∃ a, t = [(.token false, a)] ∧ ¬ GivesToken loads a) ∨
    ∃ a token a' rest, t = (.token false, a) :: (.client false token uuid, a') :: rest ∧ GivesToken loads a ∧
      (rest ≠ [] → ¬ Redirects .get a' →
        Approved services loads uuid [(.token false, a), (.client false token uuid, a')])

theorem wp_goes {α : Type} (act : Option ClientInfo → Json → Program α) :
    Dialogue.wp (fun _ _ => True) (fun t _ => Goes services loads uuid t) []
      (onPartner text loads audience uuid act) := by
  refine Dialogue.wp_bind (wp_withToken trivial (fun a token hgives => ⟨trivial, fun a' => ?_⟩) fun a err hno => ?_)
  · have hstop : Goes services loads uuid [(.token false, a), (.client false token uuid, a')] :=
      .inr ⟨a, token, a', [], rfl, hgives, fun h => absurd rfl h⟩
    simp only [Dialogue.wp]
    rcases hd : answered text [200] _ _ _ (Request.client false token uuid, a') with e | detail
    · exact hstop
    · dsimp only
      split_ifs with hmissing hok
      · exact hstop
      · exact hstop
      · refine Dialogue.wp_mono (Dialogue.wp_prefix ..) fun t r hpre => ?_
        obtain ⟨rest, rfl⟩ := hpre
        refine .inr ⟨a, token, a', rest, rfl, hgives, fun _ hr => ?_⟩
        obtain ⟨rep, client, happ, -⟩ :=
          approves_of_found services hd (by simpa using hok) (by simpa using hmissing) hr
        exact ⟨_, by simp, rep, happ⟩
  · exact .inl ⟨a, rfl, hno⟩

theorem goes_exchanged (services : Services) (text : PyExc → List UInt8) (answers : ℕ → Answer) (act : ClientAction) :
    Goes services loads uuid (exchanged text loads audience uuid answers act) := by
  have hgoes : ∀ {α : Type} {d : Program α},
      Dialogue.wp (fun _ _ => True) (fun t _ => Goes services loads uuid t) [] d →
        Goes services loads uuid (d.run answers).1 := fun h => h.ends answers
  cases act <;> exact hgoes (wp_goes _)

theorem exchanged_answer {answers : ℕ → Answer} {act : ClientAction} (before : List (Request × Answer))
    {after : List (Request × Answer)} (h : exchanged text loads audience uuid answers act = before ++ x :: after) :
    x.2 = answers before.length := by
  cases act <;> exact Dialogue.answer_of_run h

theorem noEarly_iff (services : Services) (answers : ℕ → Answer) (act : ClientAction) :
    NoEarly services loads uuid (exchanged text loads audience uuid answers act) ↔ GateClear loads answers := by
  have hgoes : Goes services loads uuid (exchanged text loads audience uuid answers act) :=
    goes_exchanged services text answers act
  rcases hgoes with ⟨a, ht, hno⟩ | ⟨a, token, a', rest, ht, hgives, hrest⟩
  · obtain rfl : a = answers 0 := exchanged_answer [] ht
    rw [ht]
    constructor
    · refine fun h => ⟨fun hr => ?_, fun hgives => absurd hgives hno⟩
      obtain ⟨x, hx, -⟩ := h [] _ [] rfl hr
      cases hx
    · rintro ⟨hr, -⟩ before x after hsplit hx
      cases before with
      | nil =>
        obtain rfl := (List.cons.inj hsplit).1
        exact absurd hx hr
      | cons y before => cases before <;> cases (List.cons.inj hsplit).2
  · obtain rfl : a = answers 0 := exchanged_answer [] ht
    obtain rfl : a' = answers 1 := exchanged_answer [(.token false, answers 0)] ht
    rw [ht]
    constructor
    · refine fun h => ⟨fun hr => ?_, fun _ hr => ?_⟩
      · obtain ⟨x, hx, -⟩ := h [] _ _ rfl hr
        cases hx
      · exact not_approved_token false _ (h [(.token false, answers 0)] _ _ rfl hr)
    · rintro ⟨hr, hr'⟩ before x after hsplit hx
      rcases before with _ | ⟨y, _ | ⟨y', before⟩⟩
      · obtain rfl := (List.cons.inj hsplit).1
        exact absurd hx hr
      · obtain rfl := (List.cons.inj (List.cons.inj hsplit).2).1
        exact absurd hx (hr' hgives)
      · obtain ⟨rfl, htail⟩ := List.cons.inj hsplit
        obtain ⟨rfl, hafter⟩ := List.cons.inj htail
        refine (hrest (by rw [hafter]; simp) (hr' hgives)).mono ?_
        intro z hz
        simp only [List.mem_cons, List.not_mem_nil, or_false] at hz ⊢
        tauto

/-- No client but a partner's is touched by its uuid exactly where neither the first token request nor the look is
redirected. -/
theorem partnerGated_iff (services : Services) (text : PyExc → List UInt8) (loads : List UInt8 → Except PyExc Json)
    (audience uuid : String) (answers : ℕ → Answer) :
    PartnerGated services text loads audience uuid answers ↔ GateClear loads answers := by
  rw [partnerGated_iff_noEarly]
  exact ⟨fun h => (noEarly_iff services answers .getSecret).mp (h .getSecret),
    fun h act => (noEarly_iff services answers act).mpr h⟩

end

def bytesOf (s : String) : List UInt8 := s.toList.map fun c => UInt8.ofNat c.toNat

/-- Tokens, but the look is redirected to a server that shows a partner's representation. -/
def redirectedLook : ℕ → Answer
  | 1 => ⟨.redirect .found "http://elsewhere/client" [] (.response 200 (bytesOf
      ("\x7b\"id\":\"u\",\"clientId\":\"p\",\"publicClient\":false,\"serviceAccountsEnabled\":true," ++
        "\"standardFlowEnabled\":false,\"implicitFlowEnabled\":false,\"directAccessGrantsEnabled\":false\x7d"))), []⟩
  | _ => ⟨.response 200 (bytesOf "\x7b\"access_token\":\"t\"\x7d"), []⟩

/-- A redirect of the look is followed, with the token, to wherever it points. -/
theorem not_partnerGated : ¬ ∀ (services : Services) (limits : JsonLimits) (text : PyExc → List UInt8)
    (audience uuid : String) (answers : ℕ → Answer),
    PartnerGated services text limits.loads audience uuid answers := by
  intro h
  have hclear : GateClear (JsonLimits.loads ⟨1000, 4300⟩) redirectedLook :=
    (noEarly_iff ⟨"", "", "", ""⟩ redirectedLook .getSecret).mp
      ((partnerGated_iff_noEarly ⟨"", "", "", ""⟩ (fun _ => []) _ "agent-embassy-tier2" "u" redirectedLook).mp
        (h _ ⟨1000, 4300⟩ _ _ _ _) .getSecret)
  exact hclear.2 ((adminToken_isSome_iff _ _).mp (by decide +kernel)) (by rintro ⟨⟩)

-- and the secret is asked for
example : ((getSecret (fun _ => []) (JsonLimits.loads ⟨1000, 4300⟩) "agent-embassy-tier2" "u").run
    redirectedLook).1.map (fun x => x.1.method) = [.post, .get, .post, .get] := by
  decide +kernel

end Admin

end Embassy
