import Embassy.Lib.Dict
import Embassy.Lib.Runs
import Embassy.PyString
import Mathlib

/-!
# The Tier 1 endpoints (`verify/main.py`) as one transition system

`POST /tier1/challenge`, `POST /tier1/verify` and `GET /tier1/check` on the two dictionaries of
`Store`. A verify request looks up the pending challenge, fetches the challenge file, and compares and
issues the session in separate steps, with anything in between. What the rate limiter, the fetch and
the clock say is the environment's choice, with every reading of the clock its own; issued tokens
(`secrets.token_urlsafe`) are fresh.
-/

namespace Embassy
open Lib

namespace Tier1

/-- Tier 1's half of `Store`. -/
structure Store where
  /-- domain -> (token, expires_at) -/
  challenges : Dict String (String × ℤ)
  /-- session_token -> (domain, expires_at) -/
  sessions : Dict String (String × ℤ)
  challengeTtlSeconds : ℤ
  sessionTtlSeconds : ℤ

namespace Store

def init (challengeTtlSeconds sessionTtlSeconds : ℤ) : Store :=
  ⟨.empty, .empty, challengeTtlSeconds, sessionTtlSeconds⟩

/-- `issue_challenge`, with the token it made up. -/
def issueChallenge (token domain : String) (now : ℤ) (s : Store) : (String × ℤ) × Store :=
  let expiresAt := now + s.challengeTtlSeconds
  ((token, expiresAt), { s with challenges := s.challenges.set domain (token, expiresAt) })

def getPendingChallenge (domain : String) (now : ℤ) (s : Store) : Option String × Store :=
  match s.challenges.get? domain with
  | none => (none, s)
  | some (token, expiresAt) =>
    if now > expiresAt then (none, { s with challenges := s.challenges.erase domain })
    else (some token, s)

/-- `issue_session`, with the token it made up; the challenge is consumed. -/
def issueSession (sessionToken domain : String) (now : ℤ) (s : Store) : (String × ℤ) × Store :=
  let expiresAt := now + s.sessionTtlSeconds
  ((sessionToken, expiresAt),
    { s with
      sessions := s.sessions.set sessionToken (domain, expiresAt)
      challenges := s.challenges.erase domain })

def checkSession (sessionToken : String) (now : ℤ) (s : Store) : Option String × Store :=
  match s.sessions.get? sessionToken with
  | none => (none, s)
  | some (domain, expiresAt) =>
    if now > expiresAt then (none, { s with sessions := s.sessions.erase sessionToken })
    else (some domain, s)

end Store

inductive Response
  /-- `HTTPException` -/
  | error (status : ℕ) (detail : String)
  | challenge (domain token wellKnownPath : String) (expiresIn expiresAt : ℤ)
  | session (sessionToken domain : String) (expiresIn expiresAt : ℤ)
  /-- 200 with `X-Verified-Domain`. -/
  | verified (domain : String)
  deriving DecidableEq, Repr

/-- Where a request stands. -/
inductive Handler
  /-- `get_pending_challenge` returned `token`. -/
  | lookedUp (domain token : String)
  /-- Inside `fetch_challenge_file`. -/
  | fetching (domain token : String)
  /-- It returned. -/
  | fetched (domain token : String) (status : ℤ) (body : List UInt8)
  | answered (r : Response)
  deriving DecidableEq, Repr

inductive Event
  /-- A challenge was issued. -/
  | challenged (domain token : String) (expiresAt : ℤ)
  /-- Verify request `i` found this pending challenge. -/
  | found (i : ℕ) (domain token : String) (now : ℤ)
  /-- It began to fetch the domain's challenge file, ... -/
  | fetching (i : ℕ) (domain : String)
  /-- ... and got it. -/
  | fetched (i : ℕ) (domain : String) (status : ℤ) (body : List UInt8)
  /-- It compared the file with `token` and issued a session, under the session TTL `ttl`. -/
  | opened (i : ℕ) (domain token sessionToken : String) (now ttl : ℤ)
  deriving DecidableEq, Repr

def Event.token? : Event → Option String
  | challenged _ token _ => some token
  | opened _ _ _ sessionToken _ _ => some sessionToken
  | _ => none

structure World where
  store : Store
  handlers : ℕ → Option Handler
  trace : List Event

namespace World

def init (challengeTtlSeconds sessionTtlSeconds : ℤ) : World :=
  ⟨.init challengeTtlSeconds sessionTtlSeconds, fun _ => none, []⟩

def goto (i : ℕ) (h : Handler) (w : World) : World :=
  { w with handlers := Function.update w.handlers i (some h) }

def answer (i : ℕ) (r : Response) (w : World) : World := w.goto i (.answered r)

def log (s : Store) (e : Event) (w : World) : World := { w with store := s, trace := w.trace ++ [e] }

def Fresh (w : World) (token : String) : Prop := ∀ e ∈ w.trace, e.token? ≠ some token

instance (w : World) (token : String) : Decidable (w.Fresh token) :=
  inferInstanceAs (Decidable (∀ e ∈ w.trace, e.token? ≠ some token))

end World

def challengePath : String := "/.well-known/agent-embassy-challenge.txt"

/-- What can happen next; `now` is the reading the piece of code takes, `limited` that the rate limiter
refuses. -/
inductive Act
  /-- `POST /tier1/challenge`, with the token `secrets` makes up. -/
  | challenge (i : ℕ) (limited : Bool) (domain token : String) (now : ℤ)
  /-- `POST /tier1/verify` arrives and looks up the pending challenge. -/
  | lookUp (i : ℕ) (limited : Bool) (domain : String) (now : ℤ)
  /-- `fetch_challenge_file` is called, ... -/
  | fetch (i : ℕ)
  /-- ... and raises (`none`) or returns. -/
  | fetched (i : ℕ) (result : Option (ℤ × List UInt8))
  /-- The comparison, and the session with the token `secrets` makes up. -/
  | compare (i : ℕ) (sessionToken : String) (now : ℤ)
  /-- `GET /tier1/check` -/
  | check (i : ℕ) (authorization : Option String) (now : ℤ)
  /-- `PUT /tier1/admin-config` -/
  | configure (challengeTtlSeconds sessionTtlSeconds : ℤ)

section
-- `validate_domain`; an error is the text of `InvalidDomain`
variable (validateDomain : String → Except String String)

def step (w : World) : Act → Option World
  | .challenge i limited domain token now =>
    match w.handlers i with
    | some _ => none
    | none =>
      if limited then some (w.answer i (.error 429 "too many challenge requests, slow down"))
      else
        match validateDomain domain with
        | .error detail => some (w.answer i (.error 400 detail))
        | .ok domain =>
          if w.Fresh token then
            let ((token, expiresAt), s) := w.store.issueChallenge token domain now
            some ((w.log s (.challenged domain token expiresAt)).answer i
              (.challenge domain token challengePath s.challengeTtlSeconds expiresAt))
          else none
  | .lookUp i limited domain now =>
    match w.handlers i with
    | some _ => none
    | none =>
      if limited then some (w.answer i (.error 429 "too many verify requests, slow down"))
      else
        match validateDomain domain with
        | .error detail => some (w.answer i (.error 400 detail))
        | .ok domain =>
          match w.store.getPendingChallenge domain now with
          | (none, s) =>
            some ({ w with store := s }.answer i
              (.error 404 "no pending challenge for this domain, or it expired"))
          | (some token, s) => some ((w.log s (.found i domain token now)).goto i (.lookedUp domain token))
  | .fetch i =>
    match w.handlers i with
    | some (.lookedUp domain token) =>
      some ((w.log w.store (.fetching i domain)).goto i (.fetching domain token))
    | _ => none
  | .fetched i result =>
    match w.handlers i, result with
    | some (.fetching _ _), none => some (w.answer i (.error 502 "could not verify domain control"))
    | some (.fetching domain token), some (status, body) =>
      some ((w.log w.store (.fetched i domain status body)).goto i (.fetched domain token status body))
    | _, _ => none
  | .compare i sessionToken now =>
    match w.handlers i with
    | some (.fetched domain token status body) =>
      if status ≠ 200 ∨ strip (decodeUtf8Replace body) ≠ token then
        some (w.answer i (.error 403 "domain control could not be confirmed"))
      else if w.Fresh sessionToken then
        let ((sessionToken, expiresAt), s) := w.store.issueSession sessionToken domain now
        some ((w.log s (.opened i domain token sessionToken now s.sessionTtlSeconds)).answer i
          (.session sessionToken domain s.sessionTtlSeconds expiresAt))
      else none
    | _ => none
  | .check i authorization now =>
    match w.handlers i with
    | some _ => none
    | none =>
      match bearerToken authorization with
      | none => some (w.answer i (.error 401 "missing bearer session token"))
      | some sessionToken =>
        match w.store.checkSession sessionToken now with
        | (none, s) => some ({ w with store := s }.answer i (.error 401 "invalid or expired session token"))
        | (some domain, s) => some ({ w with store := s }.answer i (.verified domain))
  | .configure challengeTtlSeconds sessionTtlSeconds =>
    some { w with store := { w.store with
      challengeTtlSeconds := challengeTtlSeconds, sessionTtlSeconds := sessionTtlSeconds } }

end

end Tier1

end Embassy
