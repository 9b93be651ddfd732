import Embassy.PyValue

/-!
# One call of `urllib.request.urlopen`

An `Attempt` is what the network does with a request, and `urlopen` is what the caller gets of it. `urlopen`
wraps what goes wrong up to sending the request in a `URLError` and lets what goes wrong later through bare. It
raises `HTTPError` for a status outside 200..299. It follows a redirect with a `GET` of its own. `final` is the
answer behind the redirects, on which alone the result depends (`urlopen_final`).
-/

namespace Embassy

inductive Method
  | get
  | post
  | put
  | delete
  deriving DecidableEq, Repr

/-- How far an attempt got after it was connected. -/
inductive Phase
  | sending
  /-- Waiting for the response, or reading the body of a redirect. -/
  | waiting
  /-- Reading the body of a response with this status. -/
  | reading (status : ℕ)
  deriving DecidableEq, Repr

/-- The statuses with a handler in `HTTPRedirectHandler`. -/
inductive Redirection
  | movedPermanently
  | found
  | seeOther
  | temporaryRedirect
  | permanentRedirect
  deriving DecidableEq, Repr

namespace Redirection

def status : Redirection → ℕ
  | movedPermanently => 301
  | found => 302
  | seeOther => 303
  | temporaryRedirect => 307
  | permanentRedirect => 308

/-- `redirect_request` makes a new request. -/
def renewed : Method → Redirection → Bool
  | .get, _ => true
  | .post, movedPermanently | .post, found | .post, seeOther => true
  | _, _ => false

end Redirection

/-- What the network does with one attempt. -/
inductive Attempt
  /-- The connection is refused; nothing was sent. -/
  | refused
  /-- Connecting timed out; nothing was sent. -/
  | connectTimeout
  | timeout (phase : Phase)
  /-- After the request went out, the connection is reset, or closed before the status line or inside a chunk. -/
  | dropped (phase : Phase)
  /-- The connection is closed before the body is as long as the head said; this much of it came. -/
  | closed (status : ℕ) (body : List UInt8)
  /-- Also one whose head breaks off, or whose body ends with the connection. -/
  | response (status : ℕ) (body : List UInt8)
  /-- A response that points to an HTTP URL, and what comes of a `GET` for that. -/
  | redirect (code : Redirection) (url : String) (body : List UInt8) (next : Attempt)
  deriving DecidableEq, Repr

/-- How the bytes of a body come to an end. -/
inductive Ending
  | whole
  | closed
  | raises (e : PyExc)

/-- A response, of whose body these bytes come. -/
structure Reply where
  status : ℕ
  arrived : List UInt8
  ending : Ending

namespace Reply

/-- `read()`: a body that is too short raises `IncompleteRead`. -/
def read (r : Reply) : Except PyExc (List UInt8) :=
  match r.ending with
  | .whole => .ok r.arrived
  | .closed => .error .other
  | .raises e => .error e

/-- `read(amt)`, which takes a body that is too short as it is. -/
def readUpTo (r : Reply) (amt : ℕ) : Except PyExc (List UInt8) :=
  match r.ending with
  | .whole | .closed => .ok (r.arrived.take amt)
  | .raises e => .error e

end Reply

/-- `urlopen` returned (2xx), raised `HTTPError` (any other status), or raised something else. -/
inductive Opened
  | returned (r : Reply)
  | httpError (r : Reply)
  | raised (e : PyExc)

/-- urllib's error processor: a status outside 200..299 is raised. -/
def Opened.ofReply (r : Reply) : Opened :=
  if 200 ≤ r.status ∧ r.status < 300 then .returned r else .httpError r

def maxRepeats : ℕ := 4

def maxRedirections : ℕ := 10

/-- `http_error_302` goes on to the URL, after it went to `visited`. -/
def goesOn (method : Method) (visited : List String) (code : Redirection) (url : String) : Bool :=
  code.renewed method && visited.count url < maxRepeats && visited.dedup.length < maxRedirections

/-- `urllib.request.urlopen`, after it followed redirects to `visited`. -/
def urlopen (method : Method) (visited : List String) : Attempt → Opened
  | .refused => .raised .urlError
  | .connectTimeout | .timeout .sending => .raised .urlTimeout
  | .timeout .waiting => .raised .timeoutError
  | .timeout (.reading status) => .ofReply ⟨status, [], .raises .timeoutError⟩
  | .dropped .sending => .raised .urlError
  | .dropped .waiting => .raised .other
  | .dropped (.reading status) => .ofReply ⟨status, [], .raises .other⟩
  | .closed status body => .ofReply ⟨status, body, .closed⟩
  | .response status body => .ofReply ⟨status, body, .whole⟩
  | .redirect code url body next =>
    if goesOn method visited code url then urlopen .get (url :: visited) next
    else .ofReply ⟨code.status, body, .whole⟩

namespace Attempt

/-- The URLs that `urlopen` sends a `GET` to of its own accord. -/
def followed (method : Method) (visited : List String) : Attempt → List String
  | redirect code url _ next =>
    if goesOn method visited code url then url :: next.followed .get (url :: visited) else []
  | _ => []

/-- What comes of the last request; a redirect that is not followed is a response like any other. -/
def final (method : Method) (visited : List String) : Attempt → Attempt
  | redirect code url body next =>
    if goesOn method visited code url then next.final .get (url :: visited) else response code.status body
  | o => o

variable {o : Attempt} {method : Method} {visited : List String} {status : ℕ} {body : List UInt8}

theorem urlopen_final (method' : Method) (visited' : List String) (o : Attempt) :
    urlopen method' visited' (o.final method visited) = urlopen method visited o := by
  induction o generalizing method visited with
  | redirect code url body next ih =>
    rw [final, urlopen]
    split_ifs
    · exact ih
    · rfl
  | timeout phase | dropped phase => cases phase <;> rfl
  | _ => rfl

theorem final_ne_redirect (method : Method) (visited : List String) (o : Attempt) (code : Redirection) (url : String)
    (body : List UInt8) (next : Attempt) : o.final method visited ≠ redirect code url body next := by
  induction o generalizing method visited with
  | redirect code' url' body' next' ih =>
    rw [final]
    split_ifs
    · exact ih _ _
    · rintro ⟨⟩
  | _ => rintro ⟨⟩

theorem final_of_ne_redirect (h : ∀ code url body next, o ≠ redirect code url body next) : o.final method visited = o := by
  cases o with
  | redirect code url body next => exact absurd rfl (h code url body next)
  | _ => rfl

theorem eq_response_of_final (h : o.final method visited = response status body) (hf : o.followed method visited = [])
    (hne : ∀ code : Redirection, code.status ≠ status) : o = response status body := by
  cases o with
  | redirect code url body' next =>
    rw [final] at h
    rw [followed] at hf
    split_ifs at h hf
    cases h
    exact absurd rfl (hne code)
  | _ => exact h

/-- Reading the body of an error response failed. -/
def escapes : Attempt → Prop
  | timeout (.reading status) | dropped (.reading status) | closed status _ => ¬ (200 ≤ status ∧ status < 300)
  | _ => False

end Attempt

end Embassy
