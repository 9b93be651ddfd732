import Embassy.HttpResponse
import Embassy.Lib.Runs
import Embassy.PublicIp
import Embassy.Tier1

/-!
# Fetching the challenge file (`verify/security.py`)

`parse_http_response` against the responses of `HttpResponse`. It gives back the bytes after the head, which
are the body unless the server sends it in chunks.
-/

namespace Embassy
open Lib

namespace Http
open PyBytes

/-- What `parse_http_response` raises, always a `ValueError`. -/
inductive ValueError
  | message (text : String)
  /-- `int` does not take the status. -/
  | notInt (status : List UInt8)
  deriving DecidableEq, Repr

/-- `sys.get_int_max_str_digits()`: 0 is no limit, and the interpreter takes none below 640. -/
def DigitLimit : Type := {n : ℕ // n = 0 ∨ 640 ≤ n}

def parseHttpResponse (limit : DigitLimit) (raw : List UInt8) : Except ValueError (ℤ × List UInt8) :=
  match find (crlf ++ crlf) raw with
  | none => .error (.message "incomplete HTTP response (no header terminator)")
  | some headerEnd =>
    let headerBytes := raw.take headerEnd
    let body := raw.drop (headerEnd + 4)
    let statusLine := splitFirst crlf headerBytes
    match split sp 2 statusLine with
    | _ :: status :: _ =>
      match int? limit.1 status with
      | some n => .ok (n, body)
      | none => .error (.notInt status)
    | _ => .error (.message "malformed status line")

/-- `str.encode("ascii")`; `none` where it raises. -/
def encodeAscii (s : String) : Option (List UInt8) := if s.toList.all (·.toNat < 0x80) then some (ascii s) else none

/-- The request of `fetch_raw`. -/
def request (hostname path : String) : String :=
  "GET " ++ path ++ " HTTP/1.1\r\n" ++ "Host: " ++ hostname ++ "\r\n" ++
    "User-Agent: agent-embassy-tier1-verify/1.0\r\n" ++ "Accept: text/plain\r\n" ++ "Connection: close\r\n\r\n"

/-- What is outside. -/
structure Network where
  properties : Security.IpProperties
  /-- The hosts `getaddrinfo` gives for a name; `none` where it raises. -/
  getaddrinfo : String → Option (List String)
  /-- What `recv(4096)` gives, call by call, from the host at an address that is sent a request; `none` where the
  connection fails. After the last piece it is closed, and `recv` gives `b""`. -/
  answer : String → List UInt8 → Option (List (List UInt8))

/-- The loop of `fetch_raw`. -/
def receive (maxBytes : ℕ) (data : List UInt8) : List (List UInt8) → List UInt8
  | [] => data
  | chunk :: chunks =>
    if data.length < maxBytes then if chunk = [] then data else receive maxBytes (data ++ chunk) chunks else data

section
variable (net : Network) (limit : DigitLimit) (maxBytes : ℕ)

def fetchRaw (ip hostname path : String) : Option (List UInt8) := do
  let sent ← encodeAscii (request hostname path)
  let chunks ← net.answer ip sent
  return (receive maxBytes [] chunks).take maxBytes

/-- `none` where it raises. -/
def fetchChallengeFile (domain : String) : Option (ℤ × List UInt8) := do
  let infos ← net.getaddrinfo domain
  let ip ← (Security.resolvePublicIp net.properties domain infos).toOption
  let raw ← fetchRaw net maxBytes ip domain Tier1.challengePath
  (parseHttpResponse limit raw).toOption

end

/-- The status line has a second word, and this is a number. -/
def NumericStatus (limit : DigitLimit) (line : List UInt8) : Prop :=
  ∃ version status, (line = version ++ sp :: status ∨ ∃ rest, line = version ++ sp :: (status ++ sp :: rest)) ∧
    sp ∉ version ∧ sp ∉ status ∧ (int? limit.1 status).isSome

/-- No header terminator, or no number in the first line. -/
def Malformed (limit : DigitLimit) (raw : List UInt8) : Prop :=
  ¬ crlf ++ crlf <:+: raw ∨
    ∃ line rest, raw = line ++ (crlf ++ rest) ∧ ¬ crlf <:+: line ∧ ¬ NumericStatus limit line

/-- The domain resolves to a public host, and this answers the request with these bytes. -/
def Serves (net : Network) (domain : String) (raw : List UInt8) : Prop :=
  ∃ infos ip sent chunks, net.getaddrinfo domain = some infos ∧
    Security.resolvePublicIp net.properties domain infos = .ok ip ∧
    encodeAscii (request domain Tier1.challengePath) = some sent ∧ net.answer ip sent = some chunks ∧
    chunks.flatten = raw ∧ ∀ chunk ∈ chunks, chunk ≠ [] ∧ chunk.length ≤ 4096

/-- A verify request that gets this from `fetch_challenge_file` opens a session. -/
def Passes (result : Option (ℤ × List UInt8)) (token : String) : Prop :=
  ∀ validateDomain w i domain sessionToken now, w.handlers i = some (.fetching domain token) → w.Fresh sessionToken →
    ∃ w', run (Tier1.step validateDomain) w [.fetched i result, .compare i sessionToken now] = some w' ∧
      w'.handlers i = some (.answered (.session sessionToken domain w.store.sessionTtlSeconds
        (now + w.store.sessionTtlSeconds)))

/-- The challenge fetch returns what the server sent. -/
structure Returned (limit : DigitLimit) (maxBytes : ℕ) (r : Response) : Prop where
  parsed : parseHttpResponse limit r.raw = .ok (r.status.value, r.body)
  fetched : ∀ net domain, Serves net domain r.raw →
    fetchChallengeFile net limit maxBytes domain = some (r.status.value, r.body)
  passes : ∀ net domain token, Serves net domain r.raw →
    (Passes (fetchChallengeFile net limit maxBytes domain) token ↔
      r.status.value = 200 ∧ strip (decodeUtf8Replace r.body) = token)

variable {limit : DigitLimit} {l bs rest : List UInt8} {ls : List (List UInt8)}

theorem find_crlf (h : ¬ crlf <:+: l) : find crlf (l ++ (crlf ++ rest)) = some l.length := by
  induction l with
  | nil => exact find_of_start (List.prefix_append crlf rest)
  | cons b l ih =>
    have hno : ¬ crlf <+: b :: (l ++ (crlf ++ rest)) := by
      intro hp
      obtain ⟨rfl, hlf⟩ := List.cons_prefix_cons.mp hp
      cases l with
      | nil => exact absurd (List.cons_prefix_cons.mp hlf).1 (by decide)
      | cons c l =>
        obtain ⟨rfl, -⟩ := List.cons_prefix_cons.mp hlf
        exact h ⟨[], l, rfl⟩
    have hl : ¬ crlf <:+: l := fun hi => h (List.infix_cons_iff.mpr (.inr hi))
    rw [List.cons_append, find_cons_of_not_start hno, ih hl]
    rfl

theorem exists_line {i : ℕ} (h : find (crlf ++ crlf) bs = some i) :
    ∃ rest, bs = splitFirst crlf (bs.take i) ++ (crlf ++ rest) ∧ ¬ crlf <:+: splitFirst crlf (bs.take i) := by
  unfold splitFirst
  cases hfind : find crlf (bs.take i) with
  | none =>
    obtain ⟨rest, hrest⟩ := exists_of_find h
    exact ⟨crlf ++ rest, by simpa only [List.append_assoc] using hrest, find_eq_none_iff.mp hfind⟩
  | some j =>
    obtain ⟨rest, hrest⟩ := exists_of_find hfind
    refine ⟨rest ++ bs.drop i, ?_, not_infix_of_find (by decide) hfind⟩
    calc bs = bs.take i ++ bs.drop i := (List.take_append_drop i bs).symm
      _ = ((bs.take i).take j ++ crlf ++ rest) ++ bs.drop i := by rw [← hrest]
      _ = _ := by simp only [List.append_assoc]

theorem line_unique {l' rest' : List UInt8} (hl : ¬ crlf <:+: l) (hl' : ¬ crlf <:+: l')
    (h : l ++ (crlf ++ rest) = l' ++ (crlf ++ rest')) : l = l' := by
  have hlen := @find_crlf _ rest hl
  rw [h, find_crlf hl'] at hlen
  exact ((List.append_inj h (Option.some.inj hlen).symm)).1

theorem numericStatus_iff : NumericStatus limit l ↔
    ∃ version status rest, split sp 2 l = version :: status :: rest ∧ (int? limit.1 status).isSome := by
  constructor
  · rintro ⟨version, status, hline, hversion, hstatus, hn⟩
    rcases hline with rfl | ⟨rest, rfl⟩
    · exact ⟨version, status, [], by rw [split_succ_append 1 hversion, split_of_not_mem 1 hstatus], hn⟩
    · exact ⟨version, status, [rest], by rw [split_succ_append 1 hversion, split_succ_append 0 hstatus, split], hn⟩
  · rintro ⟨version, status, rest, hsplit, hn⟩
    by_cases hl : sp ∈ l
    · obtain ⟨a, b, rfl, ha⟩ := List.eq_append_cons_of_mem hl
      rw [split_succ_append 1 ha] at hsplit
      obtain ⟨rfl, htail⟩ := List.cons.inj hsplit
      by_cases hb : sp ∈ b
      · obtain ⟨c, d, rfl, hc⟩ := List.eq_append_cons_of_mem hb
        rw [split_succ_append 0 hc] at htail
        obtain ⟨rfl, -⟩ := List.cons.inj htail
        exact ⟨a, c, .inr ⟨d, rfl⟩, ha, hc, hn⟩
      · rw [split_of_not_mem 1 hb] at htail
        obtain ⟨rfl, -⟩ := List.cons.inj htail
        exact ⟨a, b, .inl rfl, ha, hb, hn⟩
    · rw [split_of_not_mem 2 hl] at hsplit
      cases hsplit

theorem exists_error_iff_malformed : (∃ e, parseHttpResponse limit bs = .error e) ↔ Malformed limit bs := by
  unfold parseHttpResponse Malformed
  cases hfind : find (crlf ++ crlf) bs with
  | none => exact ⟨fun _ => .inl (find_eq_none_iff.mp hfind), fun _ => ⟨_, rfl⟩⟩
  | some i =>
    obtain ⟨rest, hrest, hline⟩ := exists_line hfind
    have hmem : crlf ++ crlf <:+: bs := by
      by_contra hno
      rw [find_eq_none_iff.mpr hno] at hfind
      cases hfind
    have hspec : (¬ crlf ++ crlf <:+: bs ∨ ∃ line rest, bs = line ++ (crlf ++ rest) ∧ ¬ crlf <:+: line ∧
        ¬ NumericStatus limit line) ↔ ¬ NumericStatus limit (splitFirst crlf (bs.take i)) := by
      constructor
      · rintro (hno | ⟨line, rest', hrest', hline', hn⟩)
        · exact absurd hmem hno
        · rwa [line_unique hline hline' (hrest.symm.trans hrest')]
      · exact fun hn => .inr ⟨_, rest, hrest, hline, hn⟩
    rw [hspec, numericStatus_iff]
    dsimp only
    rcases hsplit : split sp 2 (splitFirst crlf (bs.take i)) with _ | ⟨version, _ | ⟨status, tail⟩⟩
    · simp
    · simp
    · cases hn : int? limit.1 status <;> simp [hn]

/-! ### Reading a response -/

theorem find_head (hl : cr ∉ l) (hls : ∀ m ∈ ls, m ≠ [] ∧ cr ∉ m) :
    find (crlf ++ crlf) (l ++ ls.flatMap (crlf ++ ·) ++ (crlf ++ crlf) ++ rest) =
      some (l ++ ls.flatMap (crlf ++ ·)).length := by
  induction ls generalizing l with
  | nil =>
    have hfind : find (crlf ++ crlf) ((crlf ++ crlf) ++ rest) = some 0 := find_of_start (List.prefix_append _ _)
    rw [List.flatMap_nil, List.append_nil, List.append_assoc]
    exact (find_append_of_not_mem hl).trans (congrArg _ hfind) |>.trans (congrArg some (Nat.zero_add _))
  | cons m ls ih =>
    obtain ⟨⟨hne, hm⟩, hls⟩ := List.forall_mem_cons.mp hls
    have hline : cr ∉ lf :: m := by
      rw [List.mem_cons, not_or]
      exact ⟨by decide, hm⟩
    have hno : ¬ crlf ++ crlf <+: cr :: (lf :: m ++ ls.flatMap (crlf ++ ·) ++ (crlf ++ crlf) ++ rest) := by
      obtain ⟨c, m, rfl⟩ := List.exists_cons_of_ne_nil hne
      intro hp
      obtain ⟨-, hp⟩ := List.cons_prefix_cons.mp hp
      obtain ⟨-, hp⟩ := List.cons_prefix_cons.mp hp
      exact hm ((List.cons_prefix_cons.mp hp).1 ▸ List.mem_cons_self)
    calc find (crlf ++ crlf) (l ++ (m :: ls).flatMap (crlf ++ ·) ++ (crlf ++ crlf) ++ rest)
        = find (crlf ++ crlf) (l ++ cr :: (lf :: m ++ ls.flatMap (crlf ++ ·) ++ (crlf ++ crlf) ++ rest)) := by
          simp [crlf]
      _ = (find (crlf ++ crlf) (cr :: (lf :: m ++ ls.flatMap (crlf ++ ·) ++ (crlf ++ crlf) ++ rest))).map
            (· + l.length) := find_append_of_not_mem hl
      _ = some ((lf :: m ++ ls.flatMap (crlf ++ ·)).length + 1 + l.length) := by
          rw [find_cons_of_not_start hno, ih hline hls]
          rfl
      _ = some (l ++ (m :: ls).flatMap (crlf ++ ·)).length := by
          simp [crlf]
          omega

theorem splitFirst_head (hl : cr ∉ l) : splitFirst crlf (l ++ ls.flatMap (crlf ++ ·)) = l := by
  have hno : ¬ crlf <:+: l := fun h => hl (h.subset List.mem_cons_self)
  cases ls with
  | nil =>
    rw [List.flatMap_nil, List.append_nil, splitFirst, find_eq_none_iff.mpr hno]
  | cons m ls =>
    rw [List.flatMap_cons, List.append_assoc, splitFirst, find_crlf hno]
    exact List.take_left

namespace StatusCode
variable (c : StatusCode)

theorem digitByte_spec : ∀ d : Fin 10, digit? (digitByte d) = some d.1 ∧ isSpaceByte (digitByte d) = false ∧
    (digitByte d).toNat ≠ 0x2D ∧ (digitByte d).toNat ≠ 0x2B ∧ (digitByte d).toNat ≠ 0x5F ∧ cr ≠ digitByte d ∧
    sp ≠ digitByte d := by decide

theorem not_mem_bytes : cr ∉ c.bytes ∧ sp ∉ c.bytes := by simp [bytes, digitByte_spec]

theorem digits?_bytes : digits? c.bytes = some [c.hundreds.1, c.tens.1, c.ones.1] := by
  simp [bytes, digits?, digitByte_spec]

theorem unsigned_bytes : unsigned c.bytes = (false, c.bytes) := by simp [unsigned, bytes, digitByte_spec]

theorem int?_bytes (limit : DigitLimit) : int? limit.1 c.bytes = some c.value := by
  have hspace : (c.bytes.dropWhile isSpaceByte).rdropWhile isSpaceByte = c.bytes := by
    simp [bytes, List.rdropWhile, digitByte_spec]
  have hlimit : ¬ (limit.1 ≠ 0 ∧ limit.1 < 3) := by
    have := limit.2
    omega
  have hvalue : 10 * (10 * (c.hundreds : ℤ) + c.tens) = 100 * c.hundreds + 10 * c.tens := by ring
  rw [int?, hspace, unsigned_bytes]
  simp [digits?_bytes, hlimit, value, hvalue]

end StatusCode

namespace Response
variable (r : Response)

theorem not_mem_statusLine : cr ∉ r.statusLine := by
  have hversion : cr ∉ ascii "HTTP/1.1" := by decide
  have hsp : cr ≠ sp := by decide
  have hreason : cr ∉ r.reason.elim [] (sp :: ·) := by
    cases hr : r.reason with
    | none => exact List.not_mem_nil
    | some text =>
      rw [Option.elim_some, List.mem_cons, not_or]
      exact ⟨hsp, (r.oneLine text hr).1⟩
  simp only [statusLine, List.mem_append, List.mem_cons, hversion, hsp, r.status.not_mem_bytes.1, hreason, or_self,
    not_false_eq_true]

theorem split_statusLine : ∃ rest, split sp 2 r.statusLine = ascii "HTTP/1.1" :: r.status.bytes :: rest := by
  have hversion : sp ∉ ascii "HTTP/1.1" := by decide
  rw [statusLine, split_succ_append 1 hversion]
  cases r.reason with
  | none =>
    rw [Option.elim_none, List.append_nil, split_of_not_mem 1 r.status.not_mem_bytes.2]
    exact ⟨[], rfl⟩
  | some text =>
    rw [Option.elim_some, split_succ_append 0 r.status.not_mem_bytes.2]
    exact ⟨[text], rfl⟩

theorem cr_not_mem_line (f : Field) : f.line ≠ [] ∧ cr ∉ f.line := by
  have hname : cr ∉ f.name := fun h => absurd (f.token.2 cr h) (by decide)
  have hcolon : cr ≠ colon := by decide
  constructor
  · exact List.append_ne_nil_of_left_ne_nil f.token.1 _
  · simp only [Field.line, List.mem_append, List.mem_cons, hname, hcolon, f.oneLine.1, or_self, not_false_eq_true]

theorem parseHttpResponse_raw (limit : DigitLimit) :
    parseHttpResponse limit r.raw = .ok (r.status.value, r.framing.payload) := by
  have hhead : r.head = r.statusLine ++ (r.fields.map Field.line).flatMap (crlf ++ ·) := by
    rw [head, List.flatMap_map]
  have hlines : ∀ m ∈ r.fields.map Field.line, m ≠ [] ∧ cr ∉ m := by
    intro m hm
    obtain ⟨f, -, rfl⟩ := List.mem_map.mp hm
    exact cr_not_mem_line f
  have hfind : find (crlf ++ crlf) r.raw = some r.head.length := by
    rw [raw, hhead]
    exact find_head r.not_mem_statusLine hlines
  have htake : r.raw.take r.head.length = r.head := by
    rw [raw, List.append_assoc]
    exact List.take_left
  have hdrop : r.raw.drop (r.head.length + 4) = r.framing.payload := List.drop_left' (by simp [crlf])
  obtain ⟨rest, hsplit⟩ := r.split_statusLine
  have hline : splitFirst crlf r.head = r.statusLine := by
    rw [hhead]
    exact splitFirst_head r.not_mem_statusLine
  simp only [parseHttpResponse, hfind, htake, hdrop, hline, hsplit, StatusCode.int?_bytes]

end Response

namespace Framing

theorem length_data_le (chunks : List Chunk) :
    (chunks.flatMap Chunk.data).length ≤ (chunks.flatMap Chunk.bytes).length := by
  induction chunks with
  | nil => exact le_rfl
  | cons c chunks ih =>
    simp only [List.flatMap_cons, List.length_append, Chunk.bytes]
    omega

/-- Chunks take more bytes than their data. -/
theorem payload_eq_body_iff (f : Framing) : f.payload = f.body ↔ f.isChunked = false := by
  cases f with
  | contentLength | closeDelimited => exact ⟨fun _ => rfl, fun _ => rfl⟩
  | chunked field chunks last =>
    refine ⟨fun h => ?_, fun h => by cases h⟩
    have hlen := congrArg List.length h
    have hle := length_data_le chunks
    simp only [payload, body, List.length_append, LastChunk.bytes, crlf, List.length_cons] at hlen
    omega

end Framing

/-! ### The fetch -/

theorem receive_eq {maxBytes : ℕ} {data : List UInt8} {chunks : List (List UInt8)} (hne : ∀ chunk ∈ chunks, chunk ≠ [])
    (hlen : (data ++ chunks.flatten).length ≤ maxBytes) : receive maxBytes data chunks = data ++ chunks.flatten := by
  induction chunks generalizing data with
  | nil => rw [receive, List.flatten_nil, List.append_nil]
  | cons chunk chunks ih =>
    obtain ⟨hchunk, hne⟩ := List.forall_mem_cons.mp hne
    rw [List.flatten_cons, ← List.append_assoc] at hlen ⊢
    have hmore : data.length < maxBytes := by
      have := List.length_pos_of_ne_nil hchunk
      simp only [List.length_append] at hlen
      omega
    rw [receive, if_pos hmore, if_neg hchunk]
    exact ih hne hlen

theorem fetchChallengeFile_of_serves {net : Network} {domain : String} {maxBytes : ℕ} (h : Serves net domain bs)
    (hlen : bs.length ≤ maxBytes) :
    fetchChallengeFile net limit maxBytes domain = (parseHttpResponse limit bs).toOption := by
  obtain ⟨infos, ip, sent, chunks, hinfos, hip, hsent, hanswer, rfl, hchunks⟩ := h
  have hreceive : receive maxBytes [] chunks = chunks.flatten :=
    receive_eq (fun chunk hc => (hchunks chunk hc).1) hlen
  simp [fetchChallengeFile, fetchRaw, hinfos, hip, Except.toOption, hsent, hanswer, hreceive, List.take_of_length_le hlen]

theorem exists_run_fetched {w : Tier1.World} {i : ℕ} {domain token sessionToken : String}
    (validateDomain : String → Except String String) (now status : ℤ) (body : List UInt8)
    (hi : w.handlers i = some (.fetching domain token)) (hfresh : w.Fresh sessionToken) :
    ∃ w', run (Tier1.step validateDomain) w [.fetched i (some (status, body)), .compare i sessionToken now] = some w' ∧
      w'.handlers i = some (.answered
        (if status ≠ 200 ∨ strip (decodeUtf8Replace body) ≠ token then
          .error 403 "domain control could not be confirmed"
        else .session sessionToken domain w.store.sessionTtlSeconds (now + w.store.sessionTtlSeconds))) := by
  let w₁ := (w.log w.store (.fetched i domain status body)).goto i (.fetched domain token status body)
  have hfetched : Tier1.step validateDomain w (.fetched i (some (status, body))) = some w₁ := by
    simp only [Tier1.step, hi, w₁]
  have hi₁ : w₁.handlers i = some (.fetched domain token status body) := Function.update_self ..
  have hfresh₁ : w₁.Fresh sessionToken := by
    intro e he
    rcases List.mem_append.mp he with he | he
    · exact hfresh e he
    · obtain rfl := List.mem_singleton.mp he
      exact (Option.some_ne_none _).symm
  simp only [run, hfetched, Option.bind_some]
  by_cases hc : status ≠ 200 ∨ strip (decodeUtf8Replace body) ≠ token
  · refine ⟨w₁.answer i (.error 403 "domain control could not be confirmed"), ?_, ?_⟩
    · simp only [Tier1.step, hi₁, if_pos hc, Option.bind_some]
    · rw [if_pos hc]
      exact Function.update_self ..
  · simp only [Tier1.step, hi₁, if_neg hc, if_pos hfresh₁, Option.bind_some]
    exact ⟨_, rfl, Function.update_self ..⟩

theorem passes_iff {result : Option (ℤ × List UInt8)} {token : String} :
    Passes result token ↔ ∃ body, result = some (200, body) ∧ strip (decodeUtf8Replace body) = token := by
  constructor
  · intro h
    -- a request that waits for its file in an otherwise new world
    let w : Tier1.World :=
      { Tier1.World.init 300 3600 with handlers := fun _ => some (.fetching "example.com" token) }
    obtain ⟨w', hrun, hsession⟩ := h .ok w 0 "example.com" "s" 0 rfl (List.forall_mem_nil _)
    cases result with
    | none => cases hrun
    | some got =>
      obtain ⟨status, body⟩ := got
      have hi : w.handlers 0 = some (.fetching "example.com" token) := rfl
      have hfresh : w.Fresh "s" := List.forall_mem_nil _
      obtain ⟨w'', hrun'', hanswer⟩ := exists_run_fetched .ok 0 status body hi hfresh
      obtain rfl := Option.some.inj (hrun.symm.trans hrun'')
      rw [hsession] at hanswer
      split_ifs at hanswer with hc
      · cases hanswer
      · rw [not_or, not_not, not_not] at hc
        obtain ⟨rfl, htoken⟩ := hc
        exact ⟨body, rfl, htoken⟩
  · rintro ⟨body, rfl, htoken⟩ validateDomain w i domain sessionToken now hi hfresh
    obtain ⟨w', hrun, hanswer⟩ := exists_run_fetched validateDomain now 200 body hi hfresh
    have hc : ¬ ((200 : ℤ) ≠ 200 ∨ strip (decodeUtf8Replace body) ≠ token) := by simp [htoken]
    rw [if_neg hc] at hanswer
    exact ⟨w', hrun, hanswer⟩

/-- What is malformed is refused, and of all responses those in chunks do not come back as they were sent. -/
theorem fetch_returned_iff (limit : DigitLimit) (maxBytes : ℕ) :
    (∀ raw, (∃ e, parseHttpResponse limit raw = .error e) ↔ Malformed limit raw) ∧
      ∀ r : {r : Response // r.raw.length ≤ maxBytes},
        Returned limit maxBytes r ↔ r.1.framing.isChunked = false := by
  refine ⟨fun raw => exists_error_iff_malformed, fun ⟨r, hlen⟩ => ?_⟩
  have hparse := r.parseHttpResponse_raw limit
  rw [← Framing.payload_eq_body_iff]
  constructor
  · intro h
    have heq := Except.ok.inj (hparse.symm.trans h.parsed)
    exact (Prod.mk.inj heq).2
  · intro hbody
    rw [hbody] at hparse
    have hfetch : ∀ net domain, Serves net domain r.raw →
        fetchChallengeFile net limit maxBytes domain = some (r.status.value, r.body) := by
      intro net domain hserves
      rw [fetchChallengeFile_of_serves hserves hlen, hparse]
      rfl
    refine ⟨hparse, hfetch, fun net domain token hserves => ?_⟩
    rw [hfetch net domain hserves, passes_iff]
    constructor
    · rintro ⟨body, heq, htoken⟩
      obtain ⟨hstatus, rfl⟩ := Prod.mk.inj (Option.some.inj heq)
      exact ⟨hstatus, htoken⟩
    · rintro ⟨hstatus, htoken⟩
      exact ⟨r.body, by rw [hstatus], htoken⟩

/-- The token `abc`, in one chunk. -/
def abcInChunks : List UInt8 :=
  ascii "HTTP/1.1 200 OK\r\nTransfer-Encoding: chunked\r\n\r\n3\r\nabc\r\n0\r\n\r\n"

theorem exists_abcInChunks : ∃ r : Response, r.raw = abcInChunks ∧ r.status.value = 200 ∧ r.body = ascii "abc" ∧
    r.framing.payload = ascii "3\r\nabc\r\n0\r\n\r\n" := by
  refine ⟨⟨⟨2, 0, 0⟩, some (ascii "OK"), [],
    .chunked ⟨ascii "Transfer-Encoding", ascii " chunked", ⟨by decide +kernel, List.all_eq_true.mp (by decide +kernel)⟩,
        by decide +kernel⟩
      [⟨ascii "3", [], ascii "abc", by decide +kernel, by decide, by decide, by simp⟩]
      ⟨ascii "0", [], [], by decide +kernel, by decide, by simp⟩ (by decide +kernel) (by decide +kernel),
    [], by decide, fun hb => absurd hb (by decide), fun _ _ hf => by cases hf⟩, ?_, ?_, ?_, ?_⟩ <;> decide +kernel

/-- Every name resolves to a host that gives this answer. -/
def answering (raw : List UInt8) : Network := ⟨.cpython, fun _ => some ["93.184.216.34"], fun _ _ => some [raw]⟩

/-- A domain that serves its token in chunks is refused. -/
theorem not_fetch_returned : ¬ ∀ (limit : DigitLimit) (maxBytes : ℕ) (r : {r : Response // r.raw.length ≤ maxBytes}),
    Returned limit maxBytes r := by
  intro h
  obtain ⟨r, hraw, hstatus, hbody, hpayload⟩ := exists_abcInChunks
  have hlen : abcInChunks.length ≤ 4096 := by decide +kernel
  have hserves : Serves (answering r.raw) "example.com" r.raw := by
    refine ⟨["93.184.216.34"], "93.184.216.34", ascii (request "example.com" Tier1.challengePath), [r.raw], rfl, ?_, ?_,
      rfl, List.flatten_singleton, ?_⟩
    · change Security.resolvePublicIp .cpython "example.com" ["93.184.216.34"] = .ok "93.184.216.34"
      decide
    · refine if_pos ?_
      unfold request Tier1.challengePath
      repeat rw [String.toList_append, List.all_append]
      decide +kernel
    · intro chunk hc
      obtain rfl := List.mem_singleton.mp hc
      rw [hraw]
      exact ⟨by decide, hlen⟩
  rw [← hraw] at hlen
  let limit : DigitLimit := ⟨4300, .inr (by decide)⟩
  have htoken : strip (decodeUtf8Replace r.body) = "abc" := by
    rw [hbody]
    decide
  have hpasses := ((h limit 4096 ⟨r, hlen⟩).passes _ _ "abc" hserves).mpr ⟨hstatus, htoken⟩
  rw [fetchChallengeFile_of_serves hserves hlen, r.parseHttpResponse_raw limit, passes_iff] at hpasses
  obtain ⟨body, heq, htoken'⟩ := hpasses
  obtain ⟨-, rfl⟩ := Prod.mk.inj (Option.some.inj heq)
  rw [hpayload] at htoken'
  exact absurd htoken' (by decide)

end Http

end Embassy
