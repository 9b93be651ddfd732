import Embassy.JsonFollows
import Embassy.Lib.Dict
import Embassy.LlmContract

/-!
# What `json.load` and `json.dump` make of a document

`Doc.norm` is a decoded document as Python holds it: an object is a dict, and a number is what it reads as.
`dumps` writes it as Python's encoder does with its defaults, on one line or indented, if there is room. What was
read once is read again as the same document, and from then on written as the same text (`roundTrip`).

What `repr` makes of a float is a parameter.
-/

namespace Embassy
open Lib

namespace Json

def Number.IsFloat (n : Number) : Prop := n.frac ≠ [] ∨ n.exp ≠ []

def constants : List String := ["NaN", "Infinity", "-Infinity"]

/-- `float.__repr__` of what a literal is read as, as `json` writes it. -/
structure FloatRepr where
  repr : String → String
  /-- A literal again, or an infinity. -/
  literal : ∀ n : Number, n.IsFloat → repr (String.ofList n.text) ∈ constants ∨
    ∃ n' : Number, n'.IsFloat ∧ repr (String.ofList n.text) = String.ofList n'.text
  /-- It reads as the same float. -/
  same : ∀ n n' : Number, n.IsFloat → n'.IsFloat → repr (String.ofList n.text) = String.ofList n'.text →
    repr (String.ofList n'.text) = String.ofList n'.text

def isFloatLiteral (text : String) : Bool := text.toList.any fun c => c = '.' ∨ c = 'e' ∨ c = 'E'

/-- The text that a number gets when it is written. -/
def writtenNumber (f : FloatRepr) (text : String) : String :=
  if isFloatLiteral text then f.repr text else if text = "-0" then "0" else text

mutual

/-- The value that `json.loads` makes. -/
def norm (f : FloatRepr) : Doc → Doc
  | .null => .null
  | .bool b => .bool b
  | .num text => .num (writtenNumber f text)
  | .str ps => .str ps
  | .arr vs => .arr (norms f vs)
  | .obj ms => .obj (Dict.ofList (normMembers f ms)).entries

def norms (f : FloatRepr) : List Doc → List Doc
  | [] => []
  | v :: vs => norm f v :: norms f vs

def normMembers (f : FloatRepr) : List (List ℕ × Doc) → List (List ℕ × Doc)
  | [] => []
  | (name, v) :: ms => (name, norm f v) :: normMembers f ms

end

/-! ### The encoder -/

/-- One code point; a surrogate is escaped like any other. -/
def dumpsPoint (n : ℕ) : List Char := if isHigh n ∨ isLow n then hexEscape n else dumpsChar (Char.ofNat n)

def dumpsPoints (ps : List ℕ) : List Char := quote :: (ps.flatMap dumpsPoint ++ [quote])

/-- A new line at this level; `indent` is the argument of `json.dump`. -/
def newline (indent : Option ℕ) (level : ℕ) : List Char :=
  match indent with
  | none => []
  | some n => '\n' :: List.replicate (n * level) ' '

def separator (indent : Option ℕ) (level : ℕ) : List Char :=
  ',' :: if indent.isSome then newline indent level else [' ']

section
variable (indent : Option ℕ)

mutual

/-- `json.dump` of a value inside so many others. -/
def write (level : ℕ) : Doc → List Char
  | .null => "null".toList
  | .bool b => if b then "true".toList else "false".toList
  | .num text => text.toList
  | .str ps => dumpsPoints ps
  | .arr [] => ['[', ']']
  | .arr (v :: vs) =>
    '[' :: (newline indent (level + 1) ++ (write (level + 1) v ++ (writeRest (level + 1) vs ++
      (newline indent level ++ [']']))))
  | .obj [] => ['{', '}']
  | .obj ((name, v) :: ms) =>
    '{' :: (newline indent (level + 1) ++ ((dumpsPoints name ++ ':' :: ' ' :: write (level + 1) v) ++
      (writeMembers (level + 1) ms ++ (newline indent level ++ ['}']))))

/-- The items after the first. -/
def writeRest (level : ℕ) : List Doc → List Char
  | [] => []
  | v :: vs => separator indent level ++ (write level v ++ writeRest level vs)

def writeMembers (level : ℕ) : List (List ℕ × Doc) → List Char
  | [] => []
  | (name, v) :: ms =>
    separator indent level ++ ((dumpsPoints name ++ ':' :: ' ' :: write level v) ++ writeMembers level ms)

end

end

/-- The text of what `json.loads` made of the document. -/
def written (f : FloatRepr) (indent : Option ℕ) (d : Doc) : String := String.ofList (write indent 0 (norm f d))

/-- The encoder has room for the value: it calls itself for each list and dict inside another. -/
def nests : ℕ → Doc → Bool
  | 0, .arr _ | 0, .obj _ => false
  | room + 1, .arr vs => vs.all (nests room)
  | room + 1, .obj ms => ms.all fun m => nests room m.2
  | _, _ => true

/-- `json.dumps(v, indent=indent)`, where `v` is what `json.loads` made of the document. The scanner may have had
more room: then this is a `RecursionError`. -/
def dumps (room : ℕ) (f : FloatRepr) (indent : Option ℕ) (d : Doc) : Except PyExc String :=
  if nests room (norm f d) then .ok (written f indent d) else .error .other

/-- What is promised of a document that was read. -/
structure RoundTrip (limits : JsonLimits) (room : ℕ) (f : FloatRepr) (indent : Option ℕ) (d : Doc) : Prop where
  /-- It is written if it nests no deeper than there is room for. -/
  writes : nests room d = true → ∃ text, dumps room f indent d = .ok text
  /-- It is then read again as what it was, whatever white space is written after it, -/
  reads : ∀ text, dumps room f indent d = .ok text → ∀ ws : String, (∀ c ∈ ws.toList, isWs c = true) →
    limits.loadsText (text ++ ws) = .ok (norm f d)
  /-- and from then on written as the same text. -/
  stable : dumps room f indent (norm f d) = dumps room f indent d
  /-- No name loses its value. -/
  lookup : ∀ ms, d = .obj ms → ∃ ms', norm f d = .obj ms' ∧ (ms'.map Prod.fst).Nodup ∧
    ∀ name, Agent.docGet? ms' name = (Agent.docGet? ms name).map (norm f)

variable {f : FloatRepr} {maxDigits depth : ℕ} {v : Doc} {cs rest : List Char} {ps us : List ℕ}

/-! ### Strings and numbers -/

/-- No two code points of the string are a surrogate pair. -/
def Joined (ps : List ℕ) : Prop := ps.IsChain fun a b => ¬ (isHigh a = true ∧ isLow b = true)

/-- The UTF-16 code units of a code point. -/
def pointUnits (n : ℕ) : List ℕ :=
  if n < 0x10000 then [n] else [0xD800 + (n - 0x10000) / 0x400, 0xDC00 + (n - 0x10000) % 0x400]

theorem pointUnits_of_lt {n : ℕ} (h : n < 0x10000) : pointUnits n = [n] := if_pos h

theorem pointUnits_of_not_lt {n : ℕ} (h : ¬ n < 0x10000) :
    pointUnits n = [0xD800 + (n - 0x10000) / 0x400, 0xDC00 + (n - 0x10000) % 0x400] := if_neg h

theorem joined_joinPairs (us : List ℕ) : Joined (joinPairs us) := by
  fun_induction joinPairs us with
  | case1 => exact .nil
  | case2 n => exact .singleton n
  | case3 hi lo rest h ih =>
    refine ih.cons fun b _ hpair => ?_
    have hhigh := hpair.1
    simp only [isHigh, isLow, decide_eq_true_eq] at h hhigh
    omega
  | case4 hi lo rest h ih =>
    refine ih.cons fun b hb hpair => h ⟨hpair.1, ?_⟩
    have hlow := hpair.2
    cases rest with
    | nil =>
      obtain rfl := Option.some.inj hb
      exact hlow
    | cons n rest =>
      rw [joinPairs] at hb
      split at hb <;> obtain rfl := Option.some.inj hb
      · simp only [isLow, decide_eq_true_eq] at hlow
        omega
      · exact hlow

theorem joinPairs_cons {n : ℕ} (h : ∀ m ∈ us.head?, ¬ (isHigh n = true ∧ isLow m = true)) :
    joinPairs (n :: us) = n :: joinPairs us := by
  cases us with
  | nil => rfl
  | cons m us => rw [joinPairs, if_neg (h m rfl)]

/-- A pair of surrogates is a code point again. -/
theorem joinPairs_pointUnits (hvalid : Agent.Valid ps) (hjoined : Joined ps) :
    joinPairs (ps.flatMap pointUnits) = ps := by
  induction ps with
  | nil => rfl
  | cons n ps ih =>
    obtain ⟨hn, hvalid⟩ := List.forall_mem_cons.1 hvalid
    have ih := ih hvalid hjoined.tail
    rw [List.flatMap_cons]
    by_cases hbmp : n < 0x10000
    · rw [pointUnits_of_lt hbmp, List.singleton_append, joinPairs_cons, ih]
      intro m hm hpair
      cases ps with
      | nil => cases hm
      | cons n' ps =>
        have hnext := (List.isChain_cons_cons.1 hjoined).1
        rw [List.flatMap_cons] at hm
        by_cases hbmp' : n' < 0x10000
        · rw [pointUnits_of_lt hbmp'] at hm
          obtain rfl := Option.some.inj hm
          exact hnext hpair
        · rw [pointUnits_of_not_lt hbmp'] at hm
          obtain rfl := Option.some.inj hm
          have hn' := hvalid n' List.mem_cons_self
          have hlow := hpair.2
          simp only [isLow, decide_eq_true_eq] at hlow
          omega
    · have hpair : isHigh (0xD800 + (n - 0x10000) / 0x400) = true ∧
          isLow (0xDC00 + (n - 0x10000) % 0x400) = true := by
        simp only [isHigh, isLow, decide_eq_true_eq]
        omega
      have hsum : 0x10000 + (0xD800 + (n - 0x10000) / 0x400 - 0xD800) * 0x400 +
          (0xDC00 + (n - 0x10000) % 0x400 - 0xDC00) = n := by omega
      rw [pointUnits_of_not_lt hbmp, List.cons_append, List.singleton_append, joinPairs, if_pos hpair, ih, hsum]

theorem chars_dumpsPoint {n : ℕ} (hn : n < 0x110000) (h : Chars us cs rest) :
    Chars (pointUnits n ++ us) (dumpsPoint n ++ cs) rest := by
  unfold dumpsPoint
  split_ifs with hsurrogate
  · have hbmp : n < 0x10000 := by
      simp only [isHigh, isLow, decide_eq_true_eq] at hsurrogate
      omega
    rw [pointUnits_of_lt hbmp]
    exact .unicode (hexUnit_digitChar hbmp) h
  · have hnat : (Char.ofNat n).toNat = n := by
      have hchar : n.isValidChar := by
        simp only [isHigh, isLow, decide_eq_true_eq] at hsurrogate
        unfold Nat.isValidChar
        omega
      rw [Char.toNat_ofNat, if_pos hchar]
    have hunits : codeUnits (Char.ofNat n) = pointUnits n := by rw [codeUnits, pointUnits, hnat]
    rw [← hunits]
    exact chars_of_scanString (by rw [scanString_dumpsChar, scanString_of_chars h]; rfl)

theorem chars_dumpsPoints (hvalid : Agent.Valid ps) (rest : List Char) :
    Chars (ps.flatMap pointUnits) (ps.flatMap dumpsPoint ++ quote :: rest) rest := by
  induction ps with
  | nil => exact .close
  | cons n ps ih =>
    obtain ⟨hn, hvalid⟩ := List.forall_mem_cons.1 hvalid
    rw [List.flatMap_cons, List.flatMap_cons, List.append_assoc]
    exact chars_dumpsPoint hn (ih hvalid)

def LoadedStr (ps : List ℕ) : Prop := Agent.Valid ps ∧ Joined ps

def LoadedNum (maxDigits : ℕ) (text : String) : Prop :=
  text ∈ constants ∨ ∃ n : Number, ¬ n.TooLong maxDigits ∧ text = String.ofList n.text

inductive LoadedScalar (maxDigits : ℕ) : Doc → Prop
  | null : LoadedScalar maxDigits .null
  | bool (b : Bool) : LoadedScalar maxDigits (.bool b)
  | num {text : String} (h : LoadedNum maxDigits text) : LoadedScalar maxDigits (.num text)
  | str {ps : List ℕ} (h : LoadedStr ps) : LoadedScalar maxDigits (.str ps)

/-- A document that is read with these limits. -/
def Loaded (maxDigits : ℕ) : ℕ → Doc → Prop
  | 0, v => LoadedScalar maxDigits v
  | depth + 1, v => LoadedScalar maxDigits v ∨ (∃ vs, v = .arr vs ∧ ∀ u ∈ vs, Loaded maxDigits depth u) ∨
      ∃ ms, v = .obj ms ∧ ∀ m ∈ ms, LoadedStr m.1 ∧ Loaded maxDigits depth m.2

theorem loadedStr_of_chars (h : Chars us cs rest) : LoadedStr (joinPairs us) :=
  ⟨(Agent.valid_chars h).joinPairs, joined_joinPairs us⟩

theorem loadedScalar_of_scalar (h : Scalar maxDigits v cs rest) : LoadedScalar maxDigits v := by
  cases h with
  | str h => exact .str (loadedStr_of_chars h)
  | constant h =>
    simp only [literals, List.mem_cons, List.not_mem_nil, or_false] at h
    rcases h with rfl | rfl | rfl | rfl | rfl | rfl
    · exact .null
    · exact .bool true
    · exact .bool false
    all_goals exact .num (.inl (by decide))
  | num n h => exact .num (.inr ⟨n, h, rfl⟩)

theorem forall_mem_of_contents {α : Type} {R : Reads α} {close : Char} {vs : List α} {P : α → Prop}
    (hR : ∀ v cs rest, R v cs rest → P v) (h : Contents R close vs cs rest) : ∀ v ∈ vs, P v := by
  rcases h with ⟨rfl, -⟩ | h
  · exact List.forall_mem_nil _
  · intro v hv
    obtain ⟨cs₁, cs₂, hread⟩ := Agent.exists_reads_of_items h v hv
    exact hR v cs₁ cs₂ hread

theorem loaded_of_value : ∀ {depth : ℕ} {v : Doc} {cs rest : List Char},
    Value maxDigits depth v cs rest → Loaded maxDigits depth v
  | 0, _, _, _, h => loadedScalar_of_scalar h
  | depth + 1, _, _, _, h => by
    rcases h with h | ⟨vs, cs₁, rfl, -, hvs⟩ | ⟨ms, cs₁, rfl, -, hms⟩
    · exact .inl (loadedScalar_of_scalar h)
    · exact .inr (.inl ⟨vs, rfl, forall_mem_of_contents (fun _ _ _ hv => loaded_of_value hv) hvs⟩)
    · refine .inr (.inr ⟨ms, rfl, forall_mem_of_contents (fun m _ _ hm => ?_) hms⟩)
      obtain ⟨cs₂, ⟨us, _, _, _, hname, -, hchars, -⟩, hv⟩ := hm
      exact ⟨hname ▸ loadedStr_of_chars hchars, loaded_of_value hv⟩

def isFloatMark (c : Char) : Bool := c = '.' ∨ c = 'e' ∨ c = 'E'

theorem any_digits {ds : List Char} (h : ∀ d ∈ ds, isDigit d = true) : ds.any isFloatMark = false := by
  refine List.any_eq_false.2 fun d hd hmark => ?_
  have hdigit := h d hd
  rcases of_decide_eq_true hmark with rfl | rfl | rfl <;> exact absurd hdigit (by decide)

theorem isFloatLiteral_number (n : Number) : isFloatLiteral (String.ofList n.text) = true ↔ n.IsFloat := by
  have hsign : n.sign.any isFloatMark = false := by
    rcases n.isSign with h | h <;> rw [h] <;> decide
  have hint : n.int.any isFloatMark = false := by
    rcases n.isInt with h | h
    · rw [h]
      decide
    · exact any_digits h.1.2
  have hfrac : n.frac.any isFloatMark = true ↔ n.frac ≠ [] := by
    rcases n.isFraction with h | ⟨ds, h, -⟩ <;> rw [h] <;> simp [isFloatMark]
  have hexp : n.exp.any isFloatMark = true ↔ n.exp ≠ [] := by
    rcases n.isExponent with h | ⟨e, sign, ds, h, rfl | rfl, -⟩ <;> rw [h] <;> simp [isFloatMark]
  have hlit : isFloatLiteral (String.ofList n.text) = n.text.any isFloatMark := by
    rw [isFloatLiteral, String.toList_ofList]
    rfl
  rw [hlit, Number.text, List.any_append, List.any_append, List.any_append, hsign, hint, Bool.false_or, Bool.false_or,
    Bool.or_eq_true, hfrac, hexp, Number.IsFloat]

theorem writtenNumber_of_constant {text : String} (h : text ∈ constants) : writtenNumber f text = text := by
  have hall : ∀ t ∈ constants, isFloatLiteral t = false ∧ t ≠ "-0" := by decide
  rw [writtenNumber, (hall text h).1, if_neg Bool.false_ne_true, if_neg (hall text h).2]

theorem writtenNumber_loaded {text : String} (h : LoadedNum maxDigits text) :
    LoadedNum maxDigits (writtenNumber f text) ∧ writtenNumber f (writtenNumber f text) = writtenNumber f text := by
  rcases h with h | ⟨n, hlong, rfl⟩
  · rw [writtenNumber_of_constant h, writtenNumber_of_constant h]
    exact ⟨.inl h, rfl⟩
  by_cases hfloat : n.IsFloat
  · have hwritten : writtenNumber f (String.ofList n.text) = f.repr (String.ofList n.text) :=
      if_pos ((isFloatLiteral_number n).2 hfloat)
    rw [hwritten]
    rcases f.literal n hfloat with hconst | ⟨n', hfloat', heq⟩
    · exact ⟨.inl hconst, writtenNumber_of_constant hconst⟩
    · have hagain := f.same n n' hfloat hfloat' heq
      rw [heq]
      refine ⟨.inr ⟨n', fun hl => ?_, rfl⟩, (if_pos ((isFloatLiteral_number n').2 hfloat')).trans hagain⟩
      exact hfloat'.elim (fun h => h hl.1) fun h => h hl.2.1
  · have hint : writtenNumber f (String.ofList n.text) =
        if String.ofList n.text = "-0" then "0" else String.ofList n.text :=
      if_neg fun h => hfloat ((isFloatLiteral_number n).1 h)
    rw [hint]
    split_ifs with hzero
    · have hlit : writtenNumber f "0" = "0" := rfl
      refine ⟨.inr ⟨⟨[], ['0'], [], [], .inl rfl, .inl rfl, .inl rfl, .inl rfl⟩, fun hl => ?_, rfl⟩, hlit⟩
      obtain ⟨-, -, hne, hlt⟩ := hl
      exact hne (Nat.lt_one_iff.1 hlt)
    · exact ⟨.inr ⟨n, hlong, rfl⟩, hint.trans (if_neg hzero)⟩

theorem norms_eq (vs : List Doc) : norms f vs = vs.map (norm f) := by
  induction vs with
  | nil => rfl
  | cons v vs ih => rw [norms, ih, List.map_cons]

theorem normMembers_eq (ms : List (List ℕ × Doc)) : normMembers f ms = ms.map fun m => (m.1, norm f m.2) := by
  induction ms with
  | nil => rfl
  | cons m ms ih => rw [normMembers, ih, List.map_cons]

theorem mem_norm_obj {ms : List (List ℕ × Doc)} {m : List ℕ × Doc} (h : m ∈ (Dict.ofList (normMembers f ms)).entries) :
    ∃ m' ∈ ms, m = (m'.1, norm f m'.2) := by
  have hm := Dict.mem_of_mem_ofList h
  rw [normMembers_eq] at hm
  obtain ⟨m', hm', rfl⟩ := List.mem_map.1 hm
  exact ⟨m', hm', rfl⟩

theorem norm_of_scalar (h : LoadedScalar maxDigits v) :
    LoadedScalar maxDigits (norm f v) ∧ norm f (norm f v) = norm f v := by
  cases h with
  | num h => exact ⟨.num (writtenNumber_loaded h).1, congrArg Doc.num (writtenNumber_loaded h).2⟩
  | str h => exact ⟨.str h, rfl⟩
  | null => exact ⟨.null, rfl⟩
  | bool b => exact ⟨.bool b, rfl⟩

/-- The value in memory could have been read, and is its own value in memory. -/
theorem norm_loaded : ∀ {depth : ℕ} {v : Doc}, Loaded maxDigits depth v →
    Loaded maxDigits depth (norm f v) ∧ norm f (norm f v) = norm f v
  | 0, _, h => norm_of_scalar h
  | depth + 1, _, h => by
    rcases h with h | ⟨vs, rfl, hvs⟩ | ⟨ms, rfl, hms⟩
    · exact ⟨.inl (norm_of_scalar h).1, (norm_of_scalar h).2⟩
    · have hall : ∀ u ∈ norms f vs, Loaded maxDigits depth u ∧ norm f u = u := by
        intro u hu
        rw [norms_eq] at hu
        obtain ⟨v, hv, rfl⟩ := List.mem_map.1 hu
        exact norm_loaded (hvs v hv)
      refine ⟨.inr (.inl ⟨_, rfl, fun u hu => (hall u hu).1⟩), ?_⟩
      rw [norm, norm, norms_eq (norms f vs), List.map_congr_left fun u hu => (hall u hu).2, List.map_id']
    · have hall : ∀ m ∈ (Dict.ofList (normMembers f ms)).entries,
          (LoadedStr m.1 ∧ Loaded maxDigits depth m.2) ∧ norm f m.2 = m.2 := by
        intro m hm
        obtain ⟨m', hm', rfl⟩ := mem_norm_obj hm
        obtain ⟨hname, hv⟩ := hms m' hm'
        exact ⟨⟨hname, (norm_loaded hv).1⟩, (norm_loaded hv).2⟩
      refine ⟨.inr (.inr ⟨_, rfl, fun m hm => (hall m hm).1⟩), ?_⟩
      have hsame : normMembers f (Dict.ofList (normMembers f ms)).entries = (Dict.ofList (normMembers f ms)).entries := by
        rw [normMembers_eq, List.map_congr_left fun m hm => by rw [(hall m hm).2], List.map_id']
      rw [norm, norm, hsame, Dict.ofList_entries]

/-! ### Written, and read again -/

theorem ws_newline (indent : Option ℕ) (level : ℕ) (cs : List Char) : Ws (newline indent level ++ cs) cs := by
  refine ⟨_, fun c hc => ?_, rfl⟩
  cases indent with
  | none => cases hc
  | some n =>
    rcases List.mem_cons.1 hc with rfl | hc
    · decide
    · rw [List.eq_of_mem_replicate hc]
      decide

theorem separator_spec (indent : Option ℕ) (level : ℕ) (cs : List Char) :
    ∃ cs₁, separator indent level ++ cs = ',' :: cs₁ ∧ Ws cs₁ cs := by
  cases indent with
  | none => exact ⟨' ' :: cs, rfl, [' '], List.forall_mem_singleton.2 rfl, rfl⟩
  | some n => exact ⟨_, rfl, ws_newline (some n) level cs⟩

section
variable {indent : Option ℕ} {level : ℕ}

theorem writeRest_eq (vs : List Doc) :
    writeRest indent level vs = vs.flatMap fun v => separator indent level ++ write indent level v := by
  induction vs with
  | nil => rw [writeRest, List.flatMap_nil]
  | cons v vs ih => rw [writeRest, ih, List.flatMap_cons, List.append_assoc]

def writeMember (indent : Option ℕ) (level : ℕ) (m : List ℕ × Doc) : List Char :=
  dumpsPoints m.1 ++ ':' :: ' ' :: write indent level m.2

theorem writeMembers_eq (ms : List (List ℕ × Doc)) :
    writeMembers indent level ms = ms.flatMap fun m => separator indent level ++ writeMember indent level m := by
  induction ms with
  | nil => rw [writeMembers, List.flatMap_nil]
  | cons m ms ih =>
    rw [writeMembers, ih, List.flatMap_cons]
    simp only [writeMember, List.append_assoc, List.cons_append]

/-- Items that are written with separators in between are read. -/
theorem items_of_written {α : Type} {R : Reads α} (indent : Option ℕ) (level : ℕ) (text : α → List Char)
    {close : Char} {tail : List Char} (htail : Ws tail (close :: rest)) (v : α) (vs : List α)
    (h : ∀ u ∈ v :: vs, ∀ rest, R u (text u ++ rest) rest) :
    Items R close (v :: vs) (text v ++ ((vs.flatMap fun u => separator indent level ++ text u) ++ tail)) rest := by
  induction vs generalizing v with
  | nil => exact .last (.refl _) (h v (by simp) _) htail
  | cons u vs ih =>
    have hvs := ih u fun w hw => h w (List.mem_cons_of_mem _ hw)
    rw [List.flatMap_cons, List.append_assoc, List.append_assoc]
    obtain ⟨cs₁, hcs₁, hws⟩ := separator_spec indent level
      (text u ++ ((vs.flatMap fun u => separator indent level ++ text u) ++ tail))
    rw [hcs₁]
    exact .more (.refl _) (h v (by simp) _) (.refl _) (hvs.ws hws)

theorem value_writeMember {R : Reads Doc} {m : List ℕ × Doc} (hname : LoadedStr m.1)
    (hv : ∀ rest, R m.2 (write indent level m.2 ++ rest) rest) (rest : List Char) :
    Member R m (writeMember indent level m ++ rest) rest := by
  refine ⟨write indent level m.2 ++ rest, ⟨m.1.flatMap pointUnits, _, _, _,
    (joinPairs_pointUnits hname.1 hname.2).symm, ?_, chars_dumpsPoints hname.1 _, .refl _,
    ⟨[' '], List.forall_mem_singleton.2 rfl, rfl⟩⟩, hv rest⟩
  simp [writeMember, dumpsPoints]

theorem scalar_write (h : LoadedScalar maxDigits v) (rest : List Char) :
    Scalar maxDigits v (write indent level v ++ rest) rest := by
  cases h with
  | null => exact .constant (l := ("null".toList, .null)) (by simp [literals])
  | bool b =>
    cases b with
    | false => exact .constant (l := ("false".toList, .bool false)) (by simp [literals])
    | true => exact .constant (l := ("true".toList, .bool true)) (by simp [literals])
  | num h =>
    rcases h with h | ⟨n, hlong, rfl⟩
    · simp only [constants, List.mem_cons, List.not_mem_nil, or_false] at h
      rcases h with rfl | rfl | rfl
      · exact .constant (l := ("NaN".toList, .num "NaN")) (by simp [literals])
      · exact .constant (l := ("Infinity".toList, .num "Infinity")) (by simp [literals])
      · exact .constant (l := ("-Infinity".toList, .num "-Infinity")) (by simp [literals])
    · rw [write, String.toList_ofList]
      exact .num n hlong
  | @str ps h =>
    have hchars := chars_dumpsPoints h.1 rest
    have hstr := @Scalar.str maxDigits _ _ _ hchars
    rw [joinPairs_pointUnits h.1 h.2] at hstr
    simpa [write, dumpsPoints] using hstr

/-- The text of a value that could have been read is one of its texts. -/
theorem value_write : ∀ {depth : ℕ} {v : Doc} (level : ℕ), Loaded maxDigits depth v → ∀ rest,
    Value maxDigits depth v (write indent level v ++ rest) rest
  | 0, _, _, h, rest => scalar_write h rest
  | depth + 1, _, level, h, rest => by
    rcases h with h | ⟨vs, rfl, hvs⟩ | ⟨ms, rfl, hms⟩
    · exact .inl (scalar_write h rest)
    · cases vs with
      | nil => exact .inr (.inl ⟨[], _, rfl, rfl, .inl ⟨rfl, .refl _⟩⟩)
      | cons v vs =>
        refine .inr (.inl ⟨_, _, rfl, by rw [write, List.cons_append], .inr ?_⟩)
        have hitems := items_of_written indent (level + 1) (write indent (level + 1))
          (ws_newline indent level (']' :: rest)) v vs fun u hu => value_write (level + 1) (hvs u hu)
        rw [← writeRest_eq] at hitems
        simpa using hitems.ws (ws_newline indent (level + 1) _)
    · cases ms with
      | nil => exact .inr (.inr ⟨[], _, rfl, rfl, .inl ⟨rfl, .refl _⟩⟩)
      | cons m ms =>
        refine .inr (.inr ⟨_, _, rfl, by rw [write, List.cons_append], .inr ?_⟩)
        have hitems := items_of_written indent (level + 1) (writeMember indent (level + 1))
          (ws_newline indent level ('}' :: rest)) m ms fun u hu =>
            value_writeMember (hms u hu).1 (value_write (level + 1) (hms u hu).2)
        rw [← writeMembers_eq] at hitems
        simpa [writeMember] using hitems.ws (ws_newline indent (level + 1) _)

end

theorem docGet?_entries (d : Dict (List ℕ) Doc) (name : List ℕ) : Agent.docGet? d.entries name = d.get? name := by
  conv_rhs => rw [← Dict.ofList_entries d, Dict.get?_ofList]
  rfl

theorem docGet?_map {ms : List (List ℕ × Doc)} (g : Doc → Doc) (name : List ℕ) :
    Agent.docGet? (ms.map fun m => (m.1, g m.2)) name = (Agent.docGet? ms name).map g := by
  rw [Agent.docGet?, Agent.docGet?, ← List.map_reverse, List.find?_map, Option.map_map, Option.map_map]
  rfl

theorem loadsText_written {limits : JsonLimits} {d : Doc} (h : Loaded limits.maxDigits limits.depth d) (f : FloatRepr)
    (indent : Option ℕ) {ws : String} (hws : ∀ c ∈ ws.toList, isWs c = true) :
    limits.loadsText (written f indent d ++ ws) = .ok (norm f d) := by
  refine JsonLimits.loadsText_eq_ok.2 ⟨_, ws.toList, .refl _, ?_, ws.toList, hws, by simp⟩
  rw [String.toList_append, written, String.toList_ofList]
  exact value_write 0 (norm_loaded h).1 _

theorem nests_norm {room : ℕ} (h : nests room v = true) : nests room (norm f v) = true := by
  induction room generalizing v with
  | zero =>
    cases v with
    | arr vs => cases h
    | obj ms => cases h
    | _ => rfl
  | succ room ih =>
    cases v with
    | arr vs =>
      refine List.all_eq_true.2 fun u hu => ?_
      rw [norms_eq] at hu
      obtain ⟨v, hv, rfl⟩ := List.mem_map.1 hu
      exact ih (List.all_eq_true.1 h v hv)
    | obj ms =>
      refine List.all_eq_true.2 fun m hm => ?_
      obtain ⟨m', hm', rfl⟩ := mem_norm_obj hm
      exact ih (List.all_eq_true.1 h m' hm')
    | _ => rfl

/-- Of every text that `json.load` takes: what `json.dump` then writes is read as the same document, and
written as the same text from then on. -/
theorem roundTrip {limits : JsonLimits} (room : ℕ) (f : FloatRepr) (indent : Option ℕ) {text : String} {d : Doc}
    (h : limits.loadsText text = .ok d) : RoundTrip limits room f indent d := by
  have hloaded : Loaded limits.maxDigits limits.depth d := by
    obtain ⟨_, _, -, hvalue, -⟩ := JsonLimits.loadsText_eq_ok.1 h
    exact loaded_of_value hvalue
  refine ⟨fun hroom => ⟨_, if_pos (nests_norm hroom)⟩, fun text' hdumps ws hws => ?_, ?_, ?_⟩
  · unfold dumps at hdumps
    split_ifs at hdumps
    obtain rfl := Except.ok.inj hdumps
    exact loadsText_written hloaded f indent hws
  · rw [dumps, dumps, written, written, (norm_loaded hloaded).2]
  · rintro ms rfl
    refine ⟨_, rfl, (Dict.ofList _).nodup, fun name => ?_⟩
    rw [docGet?_entries, Dict.get?_ofList, ← docGet?_map, normMembers_eq]
    rfl

/-- A float whose literal is its `repr` already. -/
def FloatRepr.literals : FloatRepr where
  repr text := text
  literal n h := .inr ⟨n, h, rfl⟩
  same _ _ _ _ _ := rfl

/-- `{"a":-0,"b":[1.5,"\ud83d"],"a":{}}` -/
def twiceText : List Char :=
  ['{', quote, 'a', quote, ':', '-', '0', ',', quote, 'b', quote, ':', '[', '1', '.', '5', ',', quote, backslash, 'u',
    'd', '8', '3', 'd', quote, ']', ',', quote, 'a', quote, ':', '{', '}', '}']

theorem roundTrip_twice : ∃ d, JsonLimits.loadsText ⟨3, 4300⟩ (String.ofList twiceText) = .ok d ∧
    nests 2 d = true ∧ RoundTrip ⟨3, 4300⟩ 2 .literals (some 2) d := by
  have hscan : ∃ d, scanDoc 4300 3 twiceText = .ok (d, []) ∧ nests 2 d = true := ⟨_, rfl, rfl⟩
  obtain ⟨d, hscan, hnests⟩ := hscan
  have hloads : JsonLimits.loadsText ⟨3, 4300⟩ (String.ofList twiceText) = .ok d := by
    rw [JsonLimits.loadsText, String.toList_ofList]
    exact congrArg (fun x => x >>= _) hscan
  exact ⟨d, hloads, hnests, roundTrip 2 .literals (some 2) hloads⟩

/-- What the scanner has read need not be written. -/
example : JsonLimits.loadsText ⟨3, 4300⟩ (String.ofList "[[[]]]".toList) = .ok (.arr [.arr [.arr []]]) ∧
    dumps 2 .literals none (.arr [.arr [.arr []]]) = .error .other := ⟨rfl, rfl⟩

end Json

end Embassy
