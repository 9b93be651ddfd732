import Embassy.PyValue
import Mathlib

/-!
# `json.loads`

CPython's decoder on bytes: the encoding is detected and decoded, then `scanOnce` reads one value and
nothing may follow it. Too deep a nesting raises `RecursionError` and too long an integer a plain
`ValueError` (`PyExc.other`); everything else that is wrong with the text is a `JSONDecodeError`. The loop
over the items of a container takes the number of characters left as its bound; `items_eq` is the loop
without it. A lone surrogate, which `Char` lacks, is read as U+FFFD.
-/

namespace Embassy
namespace Json

/-! ### `detect_encoding` and `bytes.decode` -/

inductive Encoding
  | utf8
  | utf16 (bigEndian : Bool)
  | utf32 (bigEndian : Bool)
  deriving DecidableEq, Repr

/-- `json.detect_encoding`, and the bytes after the mark its codec skips. -/
def detectEncoding (b : List ℕ) : Encoding × List ℕ :=
  if b.take 4 = [0, 0, 0xFE, 0xFF] then (.utf32 true, b.drop 4)
  else if b.take 4 = [0xFF, 0xFE, 0, 0] then (.utf32 false, b.drop 4)
  else if b.take 2 = [0xFE, 0xFF] then (.utf16 true, b.drop 2)
  else if b.take 2 = [0xFF, 0xFE] then (.utf16 false, b.drop 2)
  else if b.take 3 = [0xEF, 0xBB, 0xBF] then (.utf8, b.drop 3)
  else
    match b with
    | b₀ :: b₁ :: b₂ :: b₃ :: _ =>
      if b₀ = 0 then (if b₁ ≠ 0 then .utf16 true else .utf32 true, b)
      else if b₁ = 0 then (if b₂ ≠ 0 ∨ b₃ ≠ 0 then .utf16 false else .utf32 false, b)
      else (.utf8, b)
    | [b₀, b₁] =>
      if b₀ = 0 then (.utf16 true, b) else if b₁ = 0 then (.utf16 false, b) else (.utf8, b)
    | _ => (.utf8, b)

def isHigh (n : ℕ) : Bool := 0xD800 ≤ n ∧ n ≤ 0xDBFF

def isLow (n : ℕ) : Bool := 0xDC00 ≤ n ∧ n ≤ 0xDFFF

def codeChar (n : ℕ) : Char := if isHigh n ∨ isLow n then Char.ofNat 0xFFFD else Char.ofNat n

/-- Pairs of surrogates are one code point each. -/
def joinSurrogates : List ℕ → List Char
  | [] => []
  | [n] => [codeChar n]
  | hi :: lo :: rest =>
    if isHigh hi ∧ isLow lo then
      codeChar (0x10000 + (hi - 0xD800) * 0x400 + (lo - 0xDC00)) :: joinSurrogates rest
    else codeChar hi :: joinSurrogates (lo :: rest)

/-- The payload of a UTF-8 continuation byte. -/
def tail? (n : ℕ) : Option ℕ := if 0x80 ≤ n ∧ n < 0xC0 then some (n - 0x80) else none

/-- The UTF-8 codec; under `surrogatepass` an encoded surrogate is a code point like any other. -/
def decodeUtf8 : List ℕ → Option (List Char)
  | [] => some []
  | a :: rest =>
    if a < 0x80 then (decodeUtf8 rest).map (codeChar a :: ·)
    else if 0xC2 ≤ a ∧ a < 0xE0 then
      match rest with
      | b :: rest => do
        let n := (a - 0xC0) * 0x40 + (← tail? b)
        return codeChar n :: (← decodeUtf8 rest)
      | _ => none
    else if 0xE0 ≤ a ∧ a < 0xF0 then
      match rest with
      | b :: c :: rest => do
        let n := ((a - 0xE0) * 0x40 + (← tail? b)) * 0x40 + (← tail? c)
        if 0x800 ≤ n then return codeChar n :: (← decodeUtf8 rest) else none
      | _ => none
    else if 0xF0 ≤ a ∧ a < 0xF5 then
      match rest with
      | b :: c :: d :: rest => do
        let n := (((a - 0xF0) * 0x40 + (← tail? b)) * 0x40 + (← tail? c)) * 0x40 + (← tail? d)
        if 0x10000 ≤ n ∧ n ≤ 0x10FFFF then return codeChar n :: (← decodeUtf8 rest) else none
      | _ => none
    else none

/-- The 16-bit units of the bytes. -/
def units16 (bigEndian : Bool) : List ℕ → Option (List ℕ)
  | [] => some []
  | [_] => none
  | a :: b :: rest =>
    (units16 bigEndian rest).map ((if bigEndian then a * 0x100 + b else b * 0x100 + a) :: ·)

/-- The UTF-32 codec. -/
def decodeUtf32 (bigEndian : Bool) : List ℕ → Option (List Char)
  | [] => some []
  | a :: b :: c :: d :: rest =>
    let n := if bigEndian then ((a * 0x100 + b) * 0x100 + c) * 0x100 + d
      else ((d * 0x100 + c) * 0x100 + b) * 0x100 + a
    if n ≤ 0x10FFFF then (decodeUtf32 bigEndian rest).map (codeChar n :: ·) else none
  | _ => none

/-- `body.decode(detect_encoding(body), "surrogatepass")` -/
def decodeBody (body : List UInt8) : Option (List Char) :=
  match detectEncoding (body.map UInt8.toNat) with
  | (.utf8, b) => decodeUtf8 b
  | (.utf16 bigEndian, b) => (units16 bigEndian b).map joinSurrogates
  | (.utf32 bigEndian, b) => decodeUtf32 bigEndian b

/-! ### The scanner -/

/-- Reads a value off the text, and gives what is left. -/
abbrev Scan (α : Type) : Type := List Char → Except PyExc (α × List Char)

def quote : Char := Char.ofNat 0x22

def backslash : Char := Char.ofNat 0x5C

def isWs (c : Char) : Bool := c.toNat = 0x20 ∨ c.toNat = 0x09 ∨ c.toNat = 0x0A ∨ c.toNat = 0x0D

def skipWs (cs : List Char) : List Char := cs.dropWhile isWs

/-- The character an escape stands for. -/
def unescape (c : Char) : Option ℕ :=
  if c = quote ∨ c = backslash ∨ c = '/' then some c.toNat
  else if c = 'b' then some 0x08
  else if c = 'f' then some 0x0C
  else if c = 'n' then some 0x0A
  else if c = 'r' then some 0x0D
  else if c = 't' then some 0x09
  else none

def hexVal (c : Char) : Option ℕ :=
  if '0' ≤ c ∧ c ≤ '9' then some (c.toNat - 0x30)
  else if 'a' ≤ c ∧ c ≤ 'f' then some (c.toNat - 0x61 + 10)
  else if 'A' ≤ c ∧ c ≤ 'F' then some (c.toNat - 0x41 + 10)
  else none

/-- The code unit of `\uXXXX`. -/
def hexUnit (h₁ h₂ h₃ h₄ : Char) : Option ℕ := do
  return (((← hexVal h₁) * 16 + (← hexVal h₂)) * 16 + (← hexVal h₃)) * 16 + (← hexVal h₄)

/-- `scanstring`, after the opening quote; the code units of the string. -/
def scanString : Scan (List ℕ)
  | [] => .error .jsonDecodeError
  | c :: rest =>
    if c = quote then .ok ([], rest)
    else if c.toNat < 0x20 then .error .jsonDecodeError
    else if c = backslash then
      match rest with
      | 'u' :: h₁ :: h₂ :: h₃ :: h₄ :: rest =>
        match hexUnit h₁ h₂ h₃ h₄ with
        | some n => (scanString rest).map fun r => (n :: r.1, r.2)
        | none => .error .jsonDecodeError
      | e :: rest =>
        match unescape e with
        | some n => (scanString rest).map fun r => (n :: r.1, r.2)
        | none => .error .jsonDecodeError
      | [] => .error .jsonDecodeError
    else (scanString rest).map fun r => (c.toNat :: r.1, r.2)

def isDigit (c : Char) : Bool := '0' ≤ c ∧ c ≤ '9'

/-- A string literal, after its opening quote. -/
def scanText : Scan String := fun cs =>
  (scanString cs).map fun r => (String.ofList (joinSurrogates r.1), r.2)

/-- The digits of a number before its fraction: a zero, or digits that start with another one. -/
def intDigits : List Char → Option (List Char × List Char)
  | c :: rest =>
    if c = '0' then some ([c], rest)
    else if isDigit c then some (c :: rest.takeWhile isDigit, rest.dropWhile isDigit)
    else none
  | [] => none

/-- A fraction, if there is one. -/
def fraction : List Char → List Char × List Char
  | '.' :: rest =>
    if (rest.takeWhile isDigit).isEmpty then ([], '.' :: rest)
    else ('.' :: rest.takeWhile isDigit, rest.dropWhile isDigit)
  | cs => ([], cs)

def expSign : List Char → List Char × List Char
  | c :: rest => if c = '+' ∨ c = '-' then ([c], rest) else ([], c :: rest)
  | [] => ([], [])

/-- An exponent, if there is one. -/
def exponent : List Char → List Char × List Char
  | c :: rest =>
    let (sign, digits) := expSign rest
    if (c = 'e' ∨ c = 'E') ∧ ¬ (digits.takeWhile isDigit).isEmpty then
      (c :: sign ++ digits.takeWhile isDigit, digits.dropWhile isDigit)
    else ([], c :: rest)
  | [] => ([], [])

def numberSign : List Char → List Char × List Char
  | '-' :: rest => (['-'], rest)
  | cs => ([], cs)

/-- `_match_number`; `maxDigits` is `sys.get_int_max_str_digits()`, where 0 is no limit. -/
def scanNumber (maxDigits : ℕ) : Scan Json := fun cs =>
  let sign := numberSign cs
  match intDigits sign.2 with
  | none => .error .jsonDecodeError
  | some int =>
    let frac := fraction int.2
    let exp := exponent frac.2
    -- `int` of too many digits raises a plain `ValueError`; floats have no limit
    if frac.1 = [] ∧ exp.1 = [] ∧ maxDigits ≠ 0 ∧ maxDigits < int.1.length then .error .other
    else .ok (.num (String.ofList (sign.1 ++ int.1 ++ frac.1 ++ exp.1)), exp.2)

def literals : List (List Char × Json) :=
  [("null".toList, .null), ("true".toList, .bool true), ("false".toList, .bool false),
    ("NaN".toList, .num "NaN"), ("Infinity".toList, .num "Infinity"),
    ("-Infinity".toList, .num "-Infinity")]

/-- A named constant, or a number. -/
def scanAtom (maxDigits : ℕ) : Scan Json := fun cs =>
  match literals.find? fun l => l.1.isPrefixOf cs with
  | some (text, v) => .ok (v, cs.drop text.length)
  | none => scanNumber maxDigits cs

section
variable {α : Type}

/-- The loop of `_parse_array` and `_parse_object`, on at most `n` characters: items with commas in
between, up to `close`. -/
def itemsLoop (item : Scan α) (close : Char) : ℕ → Scan (List α)
  | 0, _ => .error .jsonDecodeError
  | n + 1, cs => do
    let (v, rest) ← item cs
    match skipWs rest with
    | c :: rest =>
      if c = close then return ([v], rest)
      else if c = ',' then
        let (vs, rest) ← itemsLoop item close n (skipWs rest)
        return (v :: vs, rest)
      else throw .jsonDecodeError
    | [] => throw .jsonDecodeError

def items (item : Scan α) (close : Char) : Scan (List α) := fun cs =>
  itemsLoop item close cs.length cs

/-- After the opening bracket: nothing, or items. -/
def container (item : Scan α) (close : Char) : Scan (List α) := fun cs =>
  match skipWs cs with
  | c :: rest => if c = close then .ok ([], rest) else items item close (c :: rest)
  | [] => .error .jsonDecodeError

end

def scanKey : Scan String := fun cs =>
  match cs with
  | c :: rest =>
    if c = quote then do
      let (key, rest) ← scanText rest
      match skipWs rest with
      | ':' :: rest => return (key, skipWs rest)
      | _ => throw .jsonDecodeError
    else .error .jsonDecodeError
  | [] => .error .jsonDecodeError

def scanMember (scan : Scan Json) : Scan (String × Json) := fun cs => do
  let (key, rest) ← scanKey cs
  let (v, rest) ← scan rest
  return ((key, v), rest)

/-- `_parse_array`, after the bracket. -/
def scanArray (scan : Scan Json) : Scan Json := fun cs =>
  (container scan ']' cs).map fun r => (.arr r.1, r.2)

/-- `_parse_object`, after the brace. -/
def scanObject (scan : Scan Json) : Scan Json := fun cs =>
  (container (scanMember scan) '}' cs).map fun r => (.obj r.1, r.2)

/-- `scan_once`, with the scanner of nested values if the stack has room for one. -/
def scanValue (maxDigits : ℕ) (nested : Option (Scan Json)) : Scan Json := fun cs =>
  match cs with
  | [] => .error .jsonDecodeError
  | c :: rest =>
    if c = quote then (scanText rest).map fun r => (.str r.1, r.2)
    else if c = '[' ∨ c = '{' then
      match nested with
      -- `RecursionError`
      | none => .error .other
      | some scan => if c = '[' then scanArray scan rest else scanObject scan rest
    else scanAtom maxDigits cs

/-- `scan_once` with `depth` frames left. -/
def scanOnce (maxDigits : ℕ) : ℕ → Scan Json
  | 0 => scanValue maxDigits none
  | depth + 1 => scanValue maxDigits (some (scanOnce maxDigits depth))

/-! ### The loops without their bound -/

/-- A scanner takes at least one character. -/
structure Consumes {α : Type} (scan : Scan α) : Prop where
  nil : scan [] = .error .jsonDecodeError
  lt : ∀ {cs v rest}, scan cs = .ok (v, rest) → rest.length < cs.length

section
variable {scan : Scan Json} {cs rest : List Char} {maxDigits depth : ℕ}

theorem map_eq_ok {ε α β : Type} {x : Except ε α} {f : α → β} {b : β} (h : x.map f = .ok b) :
    ∃ a, x = .ok a ∧ f a = b := by
  cases x with
  | error => cases h
  | ok a => exact ⟨a, rfl, Except.ok.inj h⟩

theorem bind_eq_ok {ε α β : Type} {x : Except ε α} {f : α → Except ε β} {b : β}
    (h : (x >>= f) = .ok b) : ∃ a, x = .ok a ∧ f a = .ok b := by
  cases x with
  | error => cases h
  | ok a => exact ⟨a, rfl, h⟩

theorem length_skipWs_le (cs : List Char) : (skipWs cs).length ≤ cs.length :=
  (List.dropWhile_suffix _).length_le

theorem length_lt_of_skipWs {c : Char} (h : skipWs cs = c :: rest) : rest.length < cs.length := by
  have hle := length_skipWs_le cs
  rw [h, List.length_cons] at hle
  exact hle

theorem consumes_scanString : Consumes scanString where
  nil := rfl
  lt {cs v rest} h := by
    have hmap : ∀ {n : ℕ} {cs : List Char} {v : List ℕ} {rest : List Char},
        (∀ {v rest}, scanString cs = .ok (v, rest) → rest.length < cs.length) →
        (scanString cs).map (fun r => (n :: r.1, r.2)) = .ok (v, rest) → rest.length < cs.length := by
      intro n cs v rest ih h
      obtain ⟨⟨ns, r⟩, hs, heq⟩ := map_eq_ok h
      cases heq
      exact ih hs
    fun_induction scanString cs generalizing v rest with
    | case1 | case3 | case5 | case7 | case8 => cases h
    | case2 => cases h; exact Nat.lt_succ_self _
    | case4 | case6 | case9 =>
      rename_i ih
      have hlt := hmap ih h
      simp only [List.length_cons]
      omega

theorem consumes_scanText : Consumes scanText where
  nil := rfl
  lt h := by
    obtain ⟨⟨ns, r⟩, hs, heq⟩ := map_eq_ok h
    cases heq
    exact consumes_scanString.lt hs

theorem length_intDigits_lt {int : List Char} (h : intDigits cs = some (int, rest)) :
    rest.length < cs.length := by
  unfold intDigits at h
  split at h
  · split at h
    · cases h; exact Nat.lt_succ_self _
    · split at h <;> cases h
      exact Nat.lt_succ_of_le (List.dropWhile_suffix _).length_le
  · cases h

theorem length_fraction_le (cs : List Char) : (fraction cs).2.length ≤ cs.length := by
  unfold fraction
  split
  · split
    · exact le_rfl
    · exact Nat.le_succ_of_le (List.dropWhile_suffix _).length_le
  · exact le_rfl

theorem length_expSign_le (cs : List Char) : (expSign cs).2.length ≤ cs.length := by
  unfold expSign
  split
  · split
    · exact Nat.le_succ _
    · exact le_rfl
  · exact le_rfl

theorem length_exponent_le (cs : List Char) : (exponent cs).2.length ≤ cs.length := by
  unfold exponent
  split
  · rename_i c rest
    have hle := length_expSign_le rest
    simp only
    split
    · exact ((List.dropWhile_suffix _).length_le.trans hle).trans (Nat.le_succ _)
    · exact le_rfl
  · exact le_rfl

theorem length_numberSign_le (cs : List Char) : (numberSign cs).2.length ≤ cs.length := by
  unfold numberSign
  split
  · exact Nat.le_succ _
  · exact le_rfl

theorem consumes_scanNumber (maxDigits : ℕ) : Consumes (scanNumber maxDigits) where
  nil := rfl
  lt {cs v rest} h := by
    unfold scanNumber at h
    simp only at h
    split at h
    · cases h
    · rename_i int hint
      split at h
      · cases h
      · cases h
        have hsign := length_numberSign_le cs
        have hlt := length_intDigits_lt hint
        have hfrac := length_fraction_le int.2
        have hexp := length_exponent_le (fraction int.2).2
        omega

theorem literals_length_pos : ∀ l ∈ literals, 0 < l.1.length := by
  simp [literals]

theorem consumes_scanAtom (maxDigits : ℕ) : Consumes (scanAtom maxDigits) where
  nil := rfl
  lt {cs v rest} h := by
    unfold scanAtom at h
    split at h
    · rename_i text v' hfind
      cases h
      have hmem := List.mem_of_find?_eq_some hfind
      have hpre : text <+: cs := by simpa using List.find?_some hfind
      have hle := hpre.length_le
      have hpos : 0 < text.length := literals_length_pos _ hmem
      rw [List.length_drop]
      omega
    · exact (consumes_scanNumber maxDigits).lt h

theorem consumes_scanKey : Consumes scanKey where
  nil := rfl
  lt {cs v rest} h := by
    unfold scanKey at h
    split at h
    · split at h
      · obtain ⟨⟨key, r⟩, hkey, h⟩ := bind_eq_ok h
        simp only at h
        split at h
        · rename_i r' hcolon
          cases h
          have hlt := consumes_scanText.lt hkey
          have hlt' := length_lt_of_skipWs hcolon
          have hle := length_skipWs_le r'
          simp only [List.length_cons]
          omega
        · cases h
      · cases h
    · cases h

section
variable {α : Type} {item : Scan α} {close : Char} {vs : List α}

theorem itemsLoop_lt (hitem : Consumes item) {n : ℕ} (h : itemsLoop item close n cs = .ok (vs, rest)) :
    rest.length < cs.length := by
  induction n generalizing cs vs rest with
  | zero => cases h
  | succ n ih =>
    unfold itemsLoop at h
    obtain ⟨⟨v, r⟩, hv, h⟩ := bind_eq_ok h
    have hlt := hitem.lt hv
    simp only at h
    split at h
    · rename_i c r' hsep
      have hlt' := length_lt_of_skipWs hsep
      split at h
      · cases h
        exact hlt'.trans hlt
      · split at h
        · obtain ⟨⟨vs', r''⟩, hvs, h⟩ := bind_eq_ok h
          cases h
          have hle := length_skipWs_le r'
          have hrest := ih hvs
          exact hrest.trans (lt_of_le_of_lt hle (hlt'.trans hlt))
        · cases h
    · cases h

/-- Every bound that is not below the number of characters left gives the same. -/
theorem itemsLoop_congr (hitem : Consumes item) {n m : ℕ} (hn : cs.length ≤ n) (hm : cs.length ≤ m) :
    itemsLoop item close n cs = itemsLoop item close m cs := by
  have hnil : ∀ k, itemsLoop item close k [] = .error .jsonDecodeError := by
    rintro (_ | k)
    · rfl
    · rw [itemsLoop, hitem.nil]; rfl
  induction n generalizing cs m with
  | zero => rw [List.length_eq_zero_iff.1 (Nat.le_zero.1 hn), hnil, hnil]
  | succ n ih =>
    rcases m with _ | m
    · rw [List.length_eq_zero_iff.1 (Nat.le_zero.1 hm), hnil, hnil]
    · unfold itemsLoop
      cases hv : item cs with
      | error e => rfl
      | ok vr =>
        obtain ⟨v, r⟩ := vr
        have hlt := hitem.lt hv
        simp only [bind, Except.bind]
        split
        · rename_i c r' hsep
          have hlt' := length_lt_of_skipWs hsep
          have hle := length_skipWs_le r'
          have hloop : itemsLoop item close n (skipWs r') = itemsLoop item close m (skipWs r') :=
            ih (by omega) (by omega)
          rw [hloop]
        · rfl

theorem items_eq (hitem : Consumes item) (cs : List Char) :
    items item close cs = (do
      let (v, rest) ← item cs
      match skipWs rest with
      | c :: rest =>
        if c = close then return ([v], rest)
        else if c = ',' then
          let (vs, rest) ← items item close (skipWs rest)
          return (v :: vs, rest)
        else throw .jsonDecodeError
      | [] => throw .jsonDecodeError) := by
  unfold items
  rw [itemsLoop_congr hitem le_rfl (Nat.le_succ _), itemsLoop]
  cases hv : item cs with
  | error e => rfl
  | ok vr =>
    obtain ⟨v, r⟩ := vr
    have hlt := hitem.lt hv
    simp only [bind, Except.bind]
    split
    · rename_i c r' hsep
      have hlt' := length_lt_of_skipWs hsep
      have hle := length_skipWs_le r'
      rw [itemsLoop_congr hitem (m := (skipWs r').length) (by omega) le_rfl]
    · rfl

theorem consumes_container (hitem : Consumes item) : Consumes (container item close) where
  nil := rfl
  lt {cs v rest} h := by
    unfold container at h
    split at h
    · rename_i c r hc
      have hlt := length_lt_of_skipWs hc
      split at h
      · cases h; exact hlt
      · have hitems := itemsLoop_lt hitem h
        simp only [List.length_cons] at hitems
        omega
    · cases h

end

theorem consumes_map {α β : Type} {s : Scan α} {f : α × List Char → β} (h : Consumes s) :
    Consumes fun cs => (s cs).map fun r => (f r, r.2) where
  nil := by simp only [h.nil]; rfl
  lt hok := by
    obtain ⟨⟨v, r⟩, hs, heq⟩ := map_eq_ok hok
    cases heq
    exact h.lt hs

theorem consumes_scanMember (h : Consumes scan) : Consumes (scanMember scan) where
  nil := rfl
  lt hok := by
    obtain ⟨⟨key, r⟩, hkey, hok⟩ := bind_eq_ok hok
    obtain ⟨⟨v, r'⟩, hv, hok⟩ := bind_eq_ok hok
    cases hok
    exact (h.lt hv).trans (consumes_scanKey.lt hkey)

theorem consumes_scanValue {nested : Option (Scan Json)} (h : ∀ scan ∈ nested, Consumes scan) :
    Consumes (scanValue maxDigits nested) where
  nil := rfl
  lt {cs v rest} hok := by
    unfold scanValue at hok
    split at hok
    · cases hok
    · split at hok
      · have hlt := (consumes_map consumes_scanText).lt hok
        exact Nat.lt_succ_of_lt hlt
      · split at hok
        · split at hok
          · cases hok
          · rename_i scan
            have hscan := h scan rfl
            split at hok
            · exact Nat.lt_succ_of_lt ((consumes_map (consumes_container hscan)).lt hok)
            · exact Nat.lt_succ_of_lt
                ((consumes_map (consumes_container (consumes_scanMember hscan))).lt hok)
        · exact (consumes_scanAtom maxDigits).lt hok

theorem consumes_scanOnce (maxDigits depth : ℕ) : Consumes (scanOnce maxDigits depth) := by
  induction depth with
  | zero => exact consumes_scanValue fun _ h => by cases h
  | succ depth ih =>
    refine consumes_scanValue fun scan h => ?_
    obtain rfl := Option.some.inj h
    exact ih

end

end Json

/-- What bounds `json.loads`: the frames left on the stack and `sys.get_int_max_str_digits()`. -/
structure JsonLimits where
  depth : ℕ
  maxDigits : ℕ
  deriving Repr

/-- `json.loads` of bytes. -/
def JsonLimits.loads (limits : JsonLimits) (body : List UInt8) : Except PyExc Json :=
  match Json.decodeBody body with
  | none => .error .unicodeDecodeError
  | some text => do
    let (v, rest) ← Json.scanOnce limits.maxDigits limits.depth (Json.skipWs text)
    if Json.skipWs rest = [] then return v else throw .jsonDecodeError

end Embassy
