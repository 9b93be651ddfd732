import Embassy.JsonLoads
import Embassy.Lib.Capture
import Embassy.PyJson
import Embassy.PyString

/-!
# The activity log (`nginx/default.conf`, `admin/log_tail.py`)

What nginx writes for a request in each of its two formats, and the parser of the admin's view. Values are
bytes and what is written is ASCII, so `\d` need not go further. The parser inverts both formats exactly for
the requests whose user has no space: it is the one value in front of the quotes that a caller chooses.
-/

namespace Embassy
open Lib

namespace ActivityLog

open Json (quote backslash)

/-- A digit of `\xXX`. -/
def hexDigit (n : ℕ) : Char := Char.ofNat (if n < 10 then 0x30 + n else 0x37 + n)

/-- nginx's default escaping. -/
def escapeByte (b : UInt8) : List Char :=
  let n := b.toNat
  if n < 0x20 ∨ n = 0x22 ∨ n = 0x5C ∨ 0x7E < n then [backslash, 'x', hexDigit (n / 16), hexDigit (n % 16)]
  else [Char.ofNat n]

def escape (value : List UInt8) : List Char := value.flatMap escapeByte

def shown (value : List UInt8) : List Char := if value = [] then ['-'] else escape value

/-- A part of the request line. -/
structure Word where
  bytes : List UInt8
  ne_nil : bytes ≠ []
  no_space : 0x20 ∉ bytes

/-- A request, as it is logged. `remoteAddr` is an address and `time` a `$time_local`. -/
structure LogRecord where
  remoteAddr : Word
  remoteUser : List UInt8
  time : List Char
  time_ne_nil : time ≠ []
  time_plain : ∀ c ∈ time, c ≠ ']' ∧ c ≠ quote
  method : Word
  uri : Word
  protocol : Word
  status : ℕ
  bodyBytesSent : ℕ
  referer : List UInt8
  userAgent : List UInt8
  forwardedFor : List UInt8
  verifiedDomain : List UInt8

inductive LogFormat
  | main
  | catalogActivity
  deriving DecidableEq

/-- At least three digits. -/
def statusText (status : ℕ) : List Char := (Nat.toDigits 10 status).leftpad 3 '0'

namespace LogRecord
variable (r : LogRecord)

/-- `$request` -/
def request : List UInt8 := r.method.bytes ++ 0x20 :: (r.uri.bytes ++ 0x20 :: r.protocol.bytes)

def tail : LogFormat → List Char
  | .main => [quote, '\n']
  | .catalogActivity => quote :: ((" verified_domain=".toList ++ [quote]) ++ (escape r.verifiedDomain ++ [quote, '\n']))

def afterRequest (format : LogFormat) : List Char :=
  statusText r.status ++ ' ' :: (Nat.toDigits 10 r.bodyBytesSent ++ ' ' :: quote :: (shown r.referer ++
    quote :: ' ' :: quote :: (shown r.userAgent ++ quote :: ' ' :: quote :: (shown r.forwardedFor ++ r.tail format))))

def line (format : LogFormat) : List Char :=
  shown r.remoteAddr.bytes ++ ' ' :: '-' :: ' ' :: (shown r.remoteUser ++ ' ' :: '[' :: (r.time ++
    ']' :: ' ' :: quote :: (shown r.request ++ quote :: ' ' :: r.afterRequest format)))

end LogRecord

def nonSpaces : Pattern := .plus fun c => !isSpace c

def digits : Pattern := .plus Char.isDigit

/-- `[^"]*` -/
def unquoted : Pattern := .star (· ≠ quote)

/-- The optional end of `_LOG_RE`. -/
def domainRe : Pattern :=
  .opt <| .lit [' ', quote] <| .seq unquoted <| .lit (quote :: (" verified_domain=".toList ++ [quote])) <|
  .seq (.group "verified_domain" unquoted) <| .lit [quote] .empty

/-- `_LOG_RE` from the status on. -/
def statusRe : Pattern :=
  .seq (.group "status" digits) <| .lit [' '] <| .seq (.group "bytes" digits) <| .lit [' ', quote] <|
  .seq (.group "referer" unquoted) <| .lit [quote, ' ', quote] <|
  .seq (.group "user_agent" unquoted) <| .lit [quote] domainRe

def logRe : Pattern :=
  .seq (.group "ip" nonSpaces) <| .lit [' '] <| .seq nonSpaces <| .lit [' '] <| .seq nonSpaces <| .lit [' ', '['] <|
  .seq (.group "time" (.plus (· ≠ ']'))) <| .lit [']', ' ', quote] <|
  .seq (.group "method" nonSpaces) <| .lit [' '] <| .seq (.group "path" nonSpaces) <| .lit [' '] <|
  .seq nonSpaces <| .lit [quote, ' '] statusRe

structure LogEntry where
  ip : String
  time : String
  method : String
  path : String
  status : ℕ
  userAgent : String
  verifiedDomain : Option String
  deriving DecidableEq

/-- `match.group(name)` of a group that took part in the match. -/
def groupText (groups : Captures) (name : String) : List Char := (groups.lookup name).getD []

def parseLine (line : List Char) : Option LogEntry :=
  (logRe.match? line).map fun groups =>
    let text (name : String) : String := String.ofList (groupText groups name)
    { ip := text "ip", time := text "time", method := text "method", path := text "path",
      status := digitsVal (groupText groups "status"), userAgent := text "user_agent",
      verifiedDomain := ((groups.lookup "verified_domain").map String.ofList).filter (· ≠ "") }

def LogRecord.entry (r : LogRecord) (format : LogFormat) : LogEntry where
  ip := String.ofList (shown r.remoteAddr.bytes)
  time := String.ofList r.time
  method := String.ofList (escape r.method.bytes)
  path := String.ofList (escape r.uri.bytes)
  status := r.status
  userAgent := String.ofList (shown r.userAgent)
  verifiedDomain :=
    match format with
    | .main => none
    | .catalogActivity => if r.verifiedDomain = [] then none else some (String.ofList (escape r.verifiedDomain))

theorem hexDigit_plain : ∀ n < 16, hexDigit n ≠ quote ∧ isSpace (hexDigit n) = false := by decide

theorem mem_escapeByte {b : UInt8} {c : Char} (h : c ∈ escapeByte b) :
    c ≠ quote ∧ (isSpace c = true → c = ' ' ∧ b = 0x20) := by
  have hb := b.toNat_lt
  unfold escapeByte at h
  dsimp only at h
  split_ifs at h with hesc
  · have hplain : c ≠ quote ∧ isSpace c = false := by
      simp only [List.mem_cons, List.not_mem_nil, or_false] at h
      rcases h with rfl | rfl | rfl | rfl
      · decide
      · decide
      · exact hexDigit_plain _ (by omega)
      · exact hexDigit_plain _ (by omega)
    exact ⟨hplain.1, fun hs => absurd hs (by rw [hplain.2]; exact Bool.false_ne_true)⟩
  · simp only [not_or, not_lt] at hesc
    obtain rfl := List.mem_singleton.mp h
    have hvalid : b.toNat.isValidChar := .inl (by omega)
    have hn : (Char.ofNat b.toNat).toNat = b.toNat := by
      rw [Char.ofNat, dif_pos hvalid]
      rfl
    refine ⟨fun hq => hesc.2.1 (by rw [← hn, hq]; rfl), fun hs => ?_⟩
    · have h20 : b.toNat = 0x20 := by
        simp only [isSpace, hn, Bool.or_eq_true, Bool.and_eq_true, decide_eq_true_eq, beq_iff_eq] at hs
        omega
      exact ⟨congrArg Char.ofNat h20, UInt8.toNat_inj.mp h20⟩

theorem mem_escape {value : List UInt8} {c : Char} (h : c ∈ escape value) :
    c ≠ quote ∧ (isSpace c = true → c = ' ' ∧ 0x20 ∈ value) := by
  obtain ⟨b, hb, hc⟩ := List.mem_flatMap.mp h
  obtain ⟨hq, hs⟩ := mem_escapeByte hc
  exact ⟨hq, fun h => ⟨(hs h).1, (hs h).2 ▸ hb⟩⟩

theorem mem_shown {value : List UInt8} {c : Char} (h : c ∈ shown value) :
    c ≠ quote ∧ (isSpace c = true → c = ' ' ∧ 0x20 ∈ value) := by
  unfold shown at h
  split_ifs at h
  · obtain rfl := List.mem_singleton.mp h
    exact ⟨by decide, fun hs => absurd hs (by decide)⟩
  · exact mem_escape h

theorem escape_ne_nil {value : List UInt8} (h : value ≠ []) : escape value ≠ [] := by
  obtain ⟨b, value, rfl⟩ := List.exists_cons_of_ne_nil h
  rw [escape, List.flatMap_cons]
  unfold escapeByte
  dsimp only
  split_ifs <;> exact List.cons_ne_nil _ _

theorem shown_ne_nil (value : List UInt8) : shown value ≠ [] := by
  unfold shown
  split_ifs with h
  · exact List.cons_ne_nil _ _
  · exact escape_ne_nil h

theorem shown_word (w : Word) : shown w.bytes = escape w.bytes := if_neg w.ne_nil

theorem shown_request (r : LogRecord) : shown r.request =
    escape r.method.bytes ++ ' ' :: (escape r.uri.bytes ++ ' ' :: escape r.protocol.bytes) := by
  have hne : r.request ≠ [] := by simp [LogRecord.request]
  have hspace : escapeByte 0x20 = [' '] := by decide
  rw [shown, if_neg hne, LogRecord.request]
  simp only [escape, List.flatMap_append, List.flatMap_cons, hspace, List.singleton_append]

theorem digitsVal_statusText (n : ℕ) : digitsVal (statusText n) = n := by
  have hzeros : ∀ k ds, digitsVal (List.replicate k '0' ++ ds) = digitsVal ds := by
    intro k ds
    induction k with
    | zero => rfl
    | succ k ih => exact ih
  rw [statusText, List.leftpad, hzeros]
  exact Nat.ofDigitChars_ten_toDigits

theorem statusText_ne_nil (n : ℕ) : statusText n ≠ [] := fun h =>
  Nat.toDigits_ne_nil (List.append_eq_nil_iff.mp h).2

theorem isDigit_of_mem_statusText {n : ℕ} {c : Char} (h : c ∈ statusText n) : c.isDigit = true := by
  rcases List.mem_append.mp h with h | h
  · rw [List.eq_of_mem_replicate h]
    decide
  · exact Nat.isDigit_of_mem_toDigits (by decide) (by decide) h

variable {a tail : List Char}

theorem not_isSpace_of_mem_shown {value : List UInt8} (h : 0x20 ∉ value) :
    ∀ c ∈ shown value, (!isSpace c) = true := by
  intro c hc
  rw [Bool.not_eq_true']
  exact Bool.eq_false_iff.mpr fun hs => h ((mem_shown hc).2 hs).2

theorem stops_word {value : List UInt8} (h : 0x20 ∉ value) :
    Pattern.Stops (fun c => !isSpace c) (shown value) ' ' tail :=
  ⟨not_isSpace_of_mem_shown h, .inl (by decide)⟩

theorem stops_digits (h : ∀ c ∈ a, c.isDigit = true) : Pattern.Stops Char.isDigit a ' ' tail :=
  ⟨h, .inl (by decide)⟩

theorem stops_unquoted (h : quote ∉ a) : Pattern.Stops (· ≠ quote) a quote tail :=
  ⟨fun c hc => decide_eq_true fun hq => h (hq ▸ hc), .inl (by decide)⟩

/-! ### A line whose user has no space -/

open Pattern

variable {k : Captures → List Char → Option Captures} {caps : Captures} {s : Pattern} {name : String}

theorem step_word (text : List Char) {value : List UInt8} (h : 0x20 ∉ value) :
    step (.seq (.group name nonSpaces) (.lit (' ' :: text) s)) k caps (shown value ++ ' ' :: (text ++ tail)) =
      step s k ((name, shown value) :: caps) tail :=
  step_part text (step_group wants_lit fun _ hk => step_plus (shown_ne_nil _) (stops_word h) hk)

theorem step_digits (text : List Char) (hne : a ≠ []) (h : ∀ c ∈ a, c.isDigit = true) :
    step (.seq (.group name digits) (.lit (' ' :: text) s)) k caps (a ++ ' ' :: (text ++ tail)) =
      step s k ((name, a) :: caps) tail :=
  step_part text (step_group wants_lit fun _ hk => step_plus hne (stops_digits h) hk)

theorem quote_not_mem_shown (value : List UInt8) : quote ∉ shown value := fun h => (mem_shown h).1 rfl

theorem quote_not_mem_escape (value : List UInt8) : quote ∉ escape value := fun h => (mem_escape h).1 rfl

theorem step_unquoted (text : List Char) (h : quote ∉ a) :
    step (.seq (.group name unquoted) (.lit (quote :: text) s)) k caps (a ++ quote :: (text ++ tail)) =
      step s k ((name, a) :: caps) tail :=
  step_part text (step_group wants_lit fun _ hk => step_star (stops_unquoted h) hk)

namespace LogRecord
variable (r : LogRecord)

/-- What the optional end captures. -/
def domainGroup : LogFormat → Captures
  | .main => []
  | .catalogActivity => [("verified_domain", escape r.verifiedDomain)]

def groups (format : LogFormat) : Captures :=
  r.domainGroup format ++ [("user_agent", shown r.userAgent), ("referer", shown r.referer),
    ("bytes", Nat.toDigits 10 r.bodyBytesSent), ("status", statusText r.status), ("path", shown r.uri.bytes),
    ("method", shown r.method.bytes), ("time", r.time), ("ip", shown r.remoteAddr.bytes)]

theorem step_domainRe (format : LogFormat) :
    step domainRe (fun caps _ => some caps) caps (' ' :: quote :: (shown r.forwardedFor ++ r.tail format)) =
      some (r.domainGroup format ++ caps) := by
  have hxff : ∀ {tail}, Stops (· ≠ quote) (shown r.forwardedFor) quote tail := stops_unquoted (quote_not_mem_shown _)
  cases format with
  | main =>
    refine step_opt_of_none ((step_lit [' ', quote]).trans ((step_star hxff wants_lit).trans ?_))
    exact (step_lit [quote]).trans (step_lit_ne (by decide))
  | catalogActivity =>
    refine step_opt_of_some ((step_lit [' ', quote]).trans (?_ : _ = _))
    refine (step_part (" verified_domain=".toList ++ [quote]) (step_star hxff wants_lit)).trans ?_
    exact step_unquoted [] (quote_not_mem_escape _)

theorem match?_line (format : LogFormat) (h : 0x20 ∉ r.remoteUser) :
    logRe.match? (r.line format) = some (r.groups format) := by
  have htime : ∀ {tail}, Stops (· ≠ ']') r.time ']' tail :=
    ⟨fun c hc => decide_eq_true (r.time_plain c hc).1, .inl (by decide)⟩
  have hprotocol : ∀ {tail}, Stops (fun c => !isSpace c) (shown r.protocol.bytes) quote (' ' :: tail) := by
    intro tail
    exact ⟨not_isSpace_of_mem_shown r.protocol.no_space,
      .inr ⟨quote_not_mem_shown _, ' ', tail, rfl, rfl, by decide⟩⟩
  have hdash : ∀ {tail}, Stops (fun c => !isSpace c) ['-'] ' ' tail := by
    refine ⟨fun c hc => ?_, .inl (by decide)⟩
    obtain rfl := List.mem_singleton.mp hc
    decide
  have hrequest : ∀ tail, shown r.request ++ tail = shown r.method.bytes ++ ' ' :: (shown r.uri.bytes ++
      ' ' :: (shown r.protocol.bytes ++ tail)) := by
    intro tail
    rw [shown_request, shown_word, shown_word, shown_word, List.append_assoc, List.cons_append, List.append_assoc,
      List.cons_append]
  unfold LogRecord.line
  rw [hrequest]
  refine (step_word [] r.remoteAddr.no_space).trans ?_
  refine (step_part [] (step_plus (List.cons_ne_nil _ _) hdash wants_lit)).trans ?_
  refine (step_part ['['] (step_plus (shown_ne_nil _) (stops_word h) wants_lit)).trans ?_
  refine (step_part [' ', quote] (step_group wants_lit fun _ hk => step_plus r.time_ne_nil htime hk)).trans ?_
  refine (step_word [] r.method.no_space).trans ((step_word [] r.uri.no_space).trans ?_)
  refine (step_part [' '] (step_plus (shown_ne_nil _) hprotocol wants_lit)).trans ?_
  refine (step_digits [] (statusText_ne_nil _) fun _ => isDigit_of_mem_statusText).trans ?_
  refine (step_digits [quote] Nat.toDigits_ne_nil
    fun _ hc => Nat.isDigit_of_mem_toDigits (by decide) (by decide) hc).trans ?_
  refine (step_unquoted [' ', quote] (quote_not_mem_shown _)).trans ?_
  refine (step_unquoted [] (quote_not_mem_shown _)).trans ?_
  exact r.step_domainRe format

theorem domain_groups (format : LogFormat) :
    (((r.groups format).lookup "verified_domain").map String.ofList).filter (· ≠ "") =
      (r.entry format).verifiedDomain := by
  cases format with
  | main => rfl
  | catalogActivity =>
    change Option.filter (· ≠ "") (some (String.ofList (escape r.verifiedDomain))) =
      if r.verifiedDomain = [] then none else some (String.ofList (escape r.verifiedDomain))
    split_ifs with hnil
    · rw [hnil]
      rfl
    · have hne : String.ofList (escape r.verifiedDomain) ≠ "" := fun h =>
        escape_ne_nil hnil (String.ofList_eq_empty_iff.mp h)
      rw [Option.filter_some, if_pos (decide_eq_true hne)]

theorem parseLine_line (format : LogFormat) (h : 0x20 ∉ r.remoteUser) :
    parseLine (r.line format) = some (r.entry format) := by
  rw [parseLine, match?_line r format h, Option.map_some]
  refine congrArg some (LogEntry.mk.injEq .. ▸ ⟨?_, ?_, ?_, ?_, ?_, ?_, domain_groups r format⟩)
  · cases format <;> rfl
  · cases format <;> rfl
  · cases format <;> exact congrArg String.ofList (shown_word r.method)
  · cases format <;> exact congrArg String.ofList (shown_word r.uri)
  · rw [← digitsVal_statusText r.status]
    cases format <;> rfl
  · cases format <;> rfl

/-- What a match says of the line up to the request line, and that its time is the one in the entry. -/
theorem exists_of_parseLine {line : List Char} {e : LogEntry} (h : parseLine line = some e) :
    ∃ ip dash user time rest, line = ip ++ ' ' :: (dash ++ ' ' :: (user ++ ' ' :: '[' :: (time ++
      ']' :: ' ' :: quote :: rest))) ∧ ' ' ∉ ip ∧ ' ' ∉ dash ∧ ' ' ∉ user ∧ e.time = String.ofList time := by
  obtain ⟨groups, hmatch, rfl⟩ := Option.map_eq_some_iff.mp h
  have hnospace : ∀ {a : List Char}, (∀ c ∈ a, (!isSpace c) = true) → ' ' ∉ a :=
    fun ha hmem => absurd (ha ' ' hmem) (by decide)
  obtain ⟨ip, rest, rfl, hip, h⟩ := exists_of_step_plus hmatch
  obtain ⟨rest, rfl, h⟩ := exists_of_step_lit h
  obtain ⟨dash, rest, rfl, hdash, h⟩ := exists_of_step_plus h
  obtain ⟨rest, rfl, h⟩ := exists_of_step_lit h
  obtain ⟨user, rest, rfl, huser, h⟩ := exists_of_step_plus h
  obtain ⟨rest, rfl, h⟩ := exists_of_step_lit h
  obtain ⟨time, rest, rfl, -, h⟩ := exists_of_step_plus h
  obtain ⟨rest, rfl, h⟩ := exists_of_step_lit h
  obtain ⟨new, _, hgroups, hnew⟩ := exists_captures_of_step h
  refine ⟨ip, dash, user, time, rest, rfl, hnospace hip, hnospace hdash, hnospace huser, congrArg String.ofList ?_⟩
  have hother : ∀ g ∈ new, g.1 ≠ "time" := fun g hg heq => absurd (heq ▸ hnew g hg) (by decide)
  obtain rfl := Option.some.inj hgroups
  rw [groupText, take_matched, lookup_append_cons hother, Option.getD_some]

theorem parseLine_ne_entry (format : LogFormat) (h : 0x20 ∈ r.remoteUser) :
    parseLine (r.line format) ≠ some (r.entry format) := by
  intro hparse
  obtain ⟨ip, dash, user, time, rest, hline, hip, hdash, huser, htime⟩ := exists_of_parseLine hparse
  obtain rfl : r.time = time := String.ofList_injective htime
  have haddr : ' ' ∉ shown r.remoteAddr.bytes := fun hmem => r.remoteAddr.no_space ((mem_shown hmem).2 (by decide)).2
  obtain ⟨-, hline⟩ := append_cons_inj haddr hip hline
  obtain ⟨-, hline⟩ := append_cons_inj (a := ['-']) (by decide) hdash hline
  have hspace : ' ' ∈ shown r.remoteUser := by
    rw [shown, if_neg (List.ne_nil_of_mem h)]
    exact List.mem_flatMap.mpr ⟨0x20, h, by decide⟩
  -- the user ends at its first space, so what is left of it stands before the bracket of the time
  obtain ⟨u, v, huv, hu⟩ := List.eq_append_cons_of_mem hspace
  have hv : quote ∉ v := fun hmem => quote_not_mem_shown r.remoteUser (by rw [huv]; simp [hmem])
  rw [huv, List.append_assoc, List.cons_append] at hline
  obtain ⟨-, hline⟩ := append_cons_inj hu huser hline
  have htime : quote ∉ r.time := fun hmem => (r.time_plain quote hmem).2 rfl
  have hquoted : (v ++ ' ' :: '[' :: (r.time ++ [']', ' '])) ++ quote :: (shown r.request ++
      quote :: ' ' :: r.afterRequest format) = ('[' :: (r.time ++ [']', ' '])) ++ quote :: rest := by
    simpa only [List.append_assoc, List.cons_append, List.nil_append] using hline
  have hbracket : quote ∉ '[' :: (r.time ++ [']', ' ']) := by
    simp only [List.mem_cons, List.mem_append, List.not_mem_nil, or_false, not_or]
    exact ⟨by decide, htime, by decide, by decide⟩
  have hbefore : quote ∉ v ++ ' ' :: '[' :: (r.time ++ [']', ' ']) := by
    rw [List.mem_append, List.mem_cons, not_or, not_or]
    exact ⟨hv, by decide, hbracket⟩
  obtain ⟨heq, -⟩ := append_cons_inj hbefore hbracket hquoted
  have hlength := congrArg List.length heq
  simp only [List.length_append, List.length_cons, List.length_nil] at hlength
  omega

/-- The parser inverts both formats exactly for the requests whose user has no space. -/
theorem logInverted_iff (r : LogRecord) (format : LogFormat) :
    parseLine (r.line format) = some (r.entry format) ↔ 0x20 ∉ r.remoteUser :=
  ⟨fun hparse h => r.parseLine_ne_entry format h hparse, r.parseLine_line format⟩

def sampleTime : List Char :=
  ['1', '4', '/', 'A', 'u', 'g', '/', '2', '0', '2', '6', ':', '1', '0', ':', '3', '9', ':', '4', '0',
    ' ', '+', '0', '0', '0', '0']

theorem sampleTime_plain : (sampleTime.all fun c => c ≠ ']' ∧ c ≠ quote) = true := by decide

/-- `GET / HTTP/1.1` with the credentials of a user `a b`. -/
theorem not_logInverted :
    ¬ ∀ (r : LogRecord) (format : LogFormat), parseLine (r.line format) = some (r.entry format) := by
  intro h
  have htime : ∀ c ∈ sampleTime, c ≠ ']' ∧ c ≠ quote := by
    intro c hc
    simpa using List.all_eq_true.mp sampleTime_plain c hc
  have hspace : (0x20 : UInt8) ∈ [0x61, 0x20, (0x62 : UInt8)] := by decide
  let r : LogRecord :=
    { remoteAddr := ⟨[0x3A, 0x3A, 0x31], List.cons_ne_nil _ _, by decide⟩
      remoteUser := [0x61, 0x20, 0x62]
      time := sampleTime
      time_ne_nil := List.cons_ne_nil _ _
      time_plain := htime
      method := ⟨[0x47, 0x45, 0x54], List.cons_ne_nil _ _, by decide⟩
      uri := ⟨[0x2F], List.cons_ne_nil _ _, by decide⟩
      protocol := ⟨[0x48, 0x54, 0x54, 0x50, 0x2F, 0x31, 0x2E, 0x31], List.cons_ne_nil _ _, by decide⟩
      status := 200
      bodyBytesSent := 299
      referer := []
      userAgent := []
      forwardedFor := []
      verifiedDomain := [] }
  exact r.parseLine_ne_entry .catalogActivity hspace (h r .catalogActivity)

end LogRecord

end ActivityLog

end Embassy
