import Embassy.JsonLoads
import Embassy.PyJson

/-!
# What `json.dumps` writes is read back

`dumpsStr` writes a string in ASCII, and the scanner gives the string again, whatever follows it. So an object
of one member around such a text, sent as bytes, decodes to that object.
-/

namespace Embassy
namespace Json

def codeUnits (c : Char) : List ℕ :=
  if c.toNat < 0x10000 then [c.toNat]
  else [0xD800 + (c.toNat - 0x10000) / 0x400, 0xDC00 + (c.toNat - 0x10000) % 0x400]

/-- An object of one member, of which the value is written as `text`. -/
def dumpsMember (name : String) (text : List Char) : List Char :=
  '{' :: ((dumpsStr name).toList ++ ':' :: ' ' :: (text ++ ['}']))

/-- A scanner takes this text, and reads this value off it. -/
structure WrittenAs (scan : Scan Json) (text : List Char) (v : Json) : Prop where
  starts : ∀ rest, skipWs (text ++ rest) = text ++ rest
  reads : ∀ rest, scan (text ++ rest) = .ok (v, rest)

/-- ASCII, and no NUL. -/
def Ascii (text : List Char) : Prop := ∀ c ∈ text, 0 < c.toNat ∧ c.toNat < 0x80

def asciiBytes (text : List Char) : List UInt8 := text.map fun c => UInt8.ofNat c.toNat

variable {n maxDigits depth : ℕ} {c : Char} {cs text rest : List Char} {v : Json}

theorem toNat_of_lt_surrogates (c : Char) : c.toNat < 0xD800 ∨ 0xDFFF < c.toNat ∧ c.toNat < 0x110000 := c.valid

theorem codeChar_toNat (c : Char) : codeChar c.toNat = c := by
  have hc := toNat_of_lt_surrogates c
  have hno : ¬ (isHigh c.toNat = true ∨ isLow c.toNat = true) := by
    simp only [isHigh, isLow, decide_eq_true_eq]
    omega
  rw [codeChar, if_neg hno, Char.ofNat_toNat]

theorem joinSurrogates_codeUnits (c : Char) (units : List ℕ) :
    joinSurrogates (codeUnits c ++ units) = c :: joinSurrogates units := by
  have hc := toNat_of_lt_surrogates c
  unfold codeUnits
  split_ifs with hbmp
  · have hno : ¬ isHigh c.toNat = true := by
      simp only [isHigh, decide_eq_true_eq]
      omega
    cases units with
    | nil => exact congrArg (· :: []) (codeChar_toNat c)
    | cons lo units =>
      change joinSurrogates (c.toNat :: lo :: units) = _
      rw [joinSurrogates, if_neg fun h => hno h.1, codeChar_toNat]
  · have hpair : isHigh (0xD800 + (c.toNat - 0x10000) / 0x400) = true ∧
        isLow (0xDC00 + (c.toNat - 0x10000) % 0x400) = true := by
      simp only [isHigh, isLow, decide_eq_true_eq]
      omega
    have hsum : 0x10000 + (0xD800 + (c.toNat - 0x10000) / 0x400 - 0xD800) * 0x400 +
        (0xDC00 + (c.toNat - 0x10000) % 0x400 - 0xDC00) = c.toNat := by omega
    change joinSurrogates (_ :: _ :: units) = _
    rw [joinSurrogates, if_pos hpair, hsum, codeChar_toNat]

theorem joinSurrogates_flatMap (cs : List Char) : joinSurrogates (cs.flatMap codeUnits) = cs := by
  induction cs with
  | nil => rfl
  | cons c cs ih => rw [List.flatMap_cons, joinSurrogates_codeUnits, ih]

/-! ### Strings -/

theorem hexVal_digitChar : ∀ d < 16, hexVal (Nat.digitChar d) = some d := by decide

theorem hexUnit_digitChar (h : n < 0x10000) :
    hexUnit (Nat.digitChar (n / 4096 % 16)) (Nat.digitChar (n / 256 % 16)) (Nat.digitChar (n / 16 % 16))
      (Nat.digitChar (n % 16)) = some n := by
  have hdigit (d : ℕ) : hexVal (Nat.digitChar (d % 16)) = some (d % 16) := hexVal_digitChar _ (Nat.mod_lt _ (by omega))
  have hsum : ((n / 4096 % 16 * 16 + n / 256 % 16) * 16 + n / 16 % 16) * 16 + n % 16 = n := by omega
  simp only [hexUnit, hdigit, Option.bind_eq_bind, Option.bind_some, hsum]
  rfl

theorem scanString_hexEscape (h : n < 0x10000) (rest : List Char) :
    scanString (hexEscape n ++ rest) = (scanString rest).map fun r => (n :: r.1, r.2) := by
  change scanString (Char.ofNat 0x5C :: 'u' :: _ :: _ :: _ :: _ :: rest) = _
  rw [scanString, if_neg (by decide), if_neg (by decide), if_pos (by decide)]
  simp only [hexUnit_digitChar h]

theorem scanString_unescape {e : Char} (h : unescape e = some n) (rest : List Char) :
    scanString (Char.ofNat 0x5C :: e :: rest) = (scanString rest).map fun r => (n :: r.1, r.2) := by
  have hu : e ≠ 'u' := by
    rintro rfl
    rw [show unescape 'u' = none by decide] at h
    cases h
  rw [scanString.eq_def]
  simp only [if_neg (by decide : ¬ Char.ofNat 0x5C = quote), if_neg (by decide : ¬ (Char.ofNat 0x5C).toNat < 0x20),
    if_pos (by decide : Char.ofNat 0x5C = backslash)]
  split
  · rename_i heq
    exact absurd (List.cons.inj heq).1 hu
  · rename_i heq
    obtain ⟨rfl, rfl⟩ := List.cons.inj heq
    simp only [h]
  · rename_i heq
    cases heq

theorem scanString_plain (hquote : c ≠ quote) (hbackslash : c ≠ backslash) (hspace : 0x20 ≤ c.toNat) (rest : List Char) :
    scanString (c :: rest) = (scanString rest).map fun r => (c.toNat :: r.1, r.2) := by
  rw [scanString.eq_def]
  simp only [if_neg hquote, if_neg (show ¬ c.toNat < 0x20 by omega), if_neg hbackslash]

theorem toNat_inj {d : Char} (h : c.toNat = d.toNat) : c = d := by rw [← Char.ofNat_toNat c, h, Char.ofNat_toNat]

theorem codeUnits_of_lt (h : c.toNat < 0x10000) : codeUnits c = [c.toNat] := if_pos h

/-- `scanstring` takes what `json.dumps` makes of a character as its code units. -/
theorem scanString_dumpsChar (c : Char) (rest : List Char) :
    scanString (dumpsChar c ++ rest) = (scanString rest).map fun r => (codeUnits c ++ r.1, r.2) := by
  have hc := toNat_of_lt_surrogates c
  have hshort {e : Char} (hbmp : c.toNat < 0x10000) (he : unescape e = some c.toNat) :
      scanString (Char.ofNat 0x5C :: e :: rest) = (scanString rest).map fun r => (codeUnits c ++ r.1, r.2) := by
    rw [scanString_unescape he, codeUnits_of_lt hbmp]
    rfl
  unfold dumpsChar
  dsimp only
  split_ifs with h1 h2 h3 h4 h5 h6 h7 h8
  · refine hshort (by omega) ?_
    have he : c = quote ∨ c = backslash := h1.imp (toNat_inj (d := quote)) (toNat_inj (d := backslash))
    rw [unescape, if_pos (he.imp_right .inl)]
  · exact hshort (by omega) (h2 ▸ by decide)
  · exact hshort (by omega) (h3 ▸ by decide)
  · exact hshort (by omega) (h4 ▸ by decide)
  · exact hshort (by omega) (h5 ▸ by decide)
  · exact hshort (by omega) (h6 ▸ by decide)
  · have hne {d : Char} (hd : d.toNat = 0x22 ∨ d.toNat = 0x5C) : c ≠ d := by
      rintro rfl
      exact h1 hd
    change scanString (c :: rest) = _
    rw [scanString_plain (hne (.inl rfl)) (hne (.inr rfl)) h7.1, codeUnits_of_lt (by omega)]
    rfl
  · rw [scanString_hexEscape h8, codeUnits_of_lt h8]
    rfl
  · rw [List.append_assoc, scanString_hexEscape (by omega), scanString_hexEscape (by omega), codeUnits, if_neg h8]
    cases scanString rest <;> rfl

theorem scanText_flatMap (cs rest : List Char) :
    scanText (cs.flatMap dumpsChar ++ quote :: rest) = .ok (String.ofList cs, rest) := by
  have hscan : scanString (cs.flatMap dumpsChar ++ quote :: rest) = .ok (cs.flatMap codeUnits, rest) := by
    induction cs with
    | nil =>
      change scanString (quote :: rest) = _
      rw [scanString.eq_def]
      exact if_pos rfl
    | cons c cs ih =>
      rw [List.flatMap_cons, List.append_assoc, scanString_dumpsChar, ih]
      rfl
  rw [scanText, hscan]
  change Except.ok (String.ofList (joinSurrogates (cs.flatMap codeUnits)), rest) = _
  rw [joinSurrogates_flatMap]

theorem toList_dumpsStr (s : String) : (dumpsStr s).toList = quote :: (s.toList.flatMap dumpsChar ++ [quote]) := by
  rw [dumpsStr, String.toList_ofList]
  rfl

theorem scanText_dumpsStr (s : String) (rest : List Char) :
    scanText ((s.toList.flatMap dumpsChar ++ [quote]) ++ rest) = .ok (s, rest) := by
  rw [List.append_assoc, List.singleton_append, scanText_flatMap, String.ofList_toList]

theorem writtenAs_dumpsStr (s : String) : WrittenAs (scanOnce maxDigits depth) (dumpsStr s).toList (.str s) where
  starts rest := by
    rw [toList_dumpsStr]
    rfl
  reads rest := by
    have hvalue (nested : Option (Scan Json)) :
        scanValue maxDigits nested (quote :: ((s.toList.flatMap dumpsChar ++ [quote]) ++ rest)) = .ok (.str s, rest) := by
      unfold scanValue
      dsimp only
      rw [if_pos rfl, scanText_dumpsStr]
      rfl
    rw [toList_dumpsStr]
    cases depth with
    | zero => exact hvalue none
    | succ depth => exact hvalue (some (scanOnce maxDigits depth))

theorem scanKey_dumpsStr (name : String) (hstarts : skipWs rest = rest) :
    scanKey ((dumpsStr name).toList ++ ':' :: ' ' :: rest) = .ok (name, rest) := by
  have hcolon : skipWs (':' :: ' ' :: rest) = ':' :: ' ' :: rest := rfl
  have hspace : skipWs (' ' :: rest) = rest := hstarts
  rw [toList_dumpsStr, List.cons_append, scanKey, if_pos rfl, scanText_dumpsStr]
  simp only [bind, Except.bind, hcolon, hspace]
  rfl

theorem writtenAs_dumpsMember (name : String) (h : WrittenAs (scanOnce maxDigits depth) text v) :
    WrittenAs (scanOnce maxDigits (depth + 1)) (dumpsMember name text) (.obj [(name, v)]) where
  starts rest := rfl
  reads rest := by
    have hitem : Consumes (scanMember (scanOnce maxDigits depth)) :=
      consumes_scanMember (consumes_scanOnce maxDigits depth)
    have hmember : scanMember (scanOnce maxDigits depth) ((dumpsStr name).toList ++ ':' :: ' ' :: (text ++ '}' :: rest)) =
        .ok ((name, v), '}' :: rest) := by
      rw [scanMember, scanKey_dumpsStr name (h.starts _)]
      simp only [bind, Except.bind, h.reads]
      rfl
    have htext : dumpsMember name text ++ rest =
        '{' :: ((dumpsStr name).toList ++ ':' :: ' ' :: (text ++ '}' :: rest)) := by
      simp only [dumpsMember, List.cons_append, List.append_assoc, List.nil_append]
    have hcontainer : container (scanMember (scanOnce maxDigits depth)) '}'
        ((dumpsStr name).toList ++ ':' :: ' ' :: (text ++ '}' :: rest)) = .ok ([(name, v)], rest) := by
      have hitems : items _ '}' ((dumpsStr name).toList ++ ':' :: ' ' :: (text ++ '}' :: rest)) = _ := items_eq hitem _
      rw [hmember] at hitems
      rw [toList_dumpsStr] at hitems ⊢
      exact hitems
    rw [htext, scanOnce]
    unfold scanValue
    dsimp only
    rw [if_neg (by decide), if_pos (.inr rfl), if_neg (by decide), scanObject, hcontainer]
    rfl

/-! ### Bytes -/

theorem ascii_nil : Ascii [] := fun _ h => absurd h List.not_mem_nil

theorem ascii_cons (hc : 0 < c.toNat ∧ c.toNat < 0x80) (h : Ascii text) : Ascii (c :: text) :=
  List.forall_mem_cons.mpr ⟨hc, h⟩

theorem ascii_append {text' : List Char} (h : Ascii text) (h' : Ascii text') : Ascii (text ++ text') := fun c hc =>
  (List.mem_append.mp hc).elim (h c) (h' c)

theorem ascii_hexEscape (n : ℕ) : Ascii (hexEscape n) := by
  have hdigit : ∀ d < 16, 0 < (Nat.digitChar d).toNat ∧ (Nat.digitChar d).toNat < 0x80 := by decide
  have hmod (m : ℕ) : m % 16 < 16 := Nat.mod_lt _ (by omega)
  exact ascii_cons (by decide) (ascii_cons (by decide) (ascii_cons (hdigit _ (hmod _)) (ascii_cons (hdigit _ (hmod _))
    (ascii_cons (hdigit _ (hmod _)) (ascii_cons (hdigit _ (hmod _)) ascii_nil)))))

theorem ascii_dumpsChar (c : Char) : Ascii (dumpsChar c) := by
  have hpair {e : Char} (he : 0 < e.toNat ∧ e.toNat < 0x80) : Ascii [Char.ofNat 0x5C, e] :=
    ascii_cons (by decide) (ascii_cons he ascii_nil)
  unfold dumpsChar
  dsimp only
  split_ifs with h1 h2 h3 h4 h5 h6 h7 h8
  · exact hpair (by omega)
  · exact hpair (by decide)
  · exact hpair (by decide)
  · exact hpair (by decide)
  · exact hpair (by decide)
  · exact hpair (by decide)
  · exact ascii_cons (by omega) ascii_nil
  · exact ascii_hexEscape _
  · exact ascii_append (ascii_hexEscape _) (ascii_hexEscape _)

theorem ascii_dumpsStr (s : String) : Ascii (dumpsStr s).toList := by
  have hquote : 0 < quote.toNat ∧ quote.toNat < 0x80 := by decide
  have hchars : Ascii (s.toList.flatMap dumpsChar) := by
    intro d hd
    obtain ⟨c, -, hd⟩ := List.mem_flatMap.mp hd
    exact ascii_dumpsChar c d hd
  rw [toList_dumpsStr]
  exact ascii_cons hquote (ascii_append hchars (ascii_cons hquote ascii_nil))

theorem ascii_dumpsMember (name : String) (h : Ascii text) : Ascii (dumpsMember name text) := by
  have hvalue : Ascii (':' :: ' ' :: (text ++ ['}'])) :=
    ascii_cons (by decide) (ascii_cons (by decide) (ascii_append h (ascii_cons (by decide) ascii_nil)))
  exact ascii_cons (by decide) (ascii_append (ascii_dumpsStr name) hvalue)

theorem detectEncoding_ascii {b : List ℕ} (h : ∀ x ∈ b, 0 < x ∧ x < 0x80) : detectEncoding b = (.utf8, b) := by
  have hmark {k : ℕ} {mark : List ℕ} (x : ℕ) (hx : x ∈ mark) (hlarge : x = 0 ∨ 0x80 ≤ x) : ¬ b.take k = mark := by
    rintro rfl
    have hsmall := h x (List.mem_of_mem_take hx)
    omega
  unfold detectEncoding
  rw [if_neg (hmark 0 (by simp) (.inl rfl)), if_neg (hmark 0 (by simp) (.inl rfl)),
    if_neg (hmark 0xFE (by simp) (by omega)), if_neg (hmark 0xFF (by simp) (by omega)),
    if_neg (hmark 0xEF (by simp) (by omega))]
  split
  · rename_i b₀ b₁ b₂ b₃ rest
    have h₀ := h b₀ (by simp)
    have h₁ := h b₁ (by simp)
    rw [if_neg (by omega), if_neg (by omega)]
  · rename_i b₀ b₁
    have h₀ := h b₀ (by simp)
    have h₁ := h b₁ (by simp)
    rw [if_neg (by omega), if_neg (by omega)]
  · rfl

theorem decodeUtf8_ascii (h : Ascii text) : decodeUtf8 (text.map Char.toNat) = some text := by
  induction text with
  | nil => rfl
  | cons c text ih =>
    have hc := (h c (List.mem_cons_self ..)).2
    have hrest := ih fun d hd => h d (List.mem_cons_of_mem _ hd)
    rw [List.map_cons, decodeUtf8.eq_def]
    simp only [if_pos hc, hrest, Option.map_some, codeChar_toNat]

theorem decodeBody_ascii (h : Ascii text) : decodeBody (asciiBytes text) = some text := by
  have hbytes : (asciiBytes text).map UInt8.toNat = text.map Char.toNat := by
    rw [asciiBytes, List.map_map]
    refine List.map_congr_left fun c hc => ?_
    have hlt := (h c hc).2
    change (UInt8.ofNat c.toNat).toNat = c.toNat
    rw [UInt8.toNat_ofNat']
    omega
  have hsmall : ∀ x ∈ text.map Char.toNat, 0 < x ∧ x < 0x80 := by
    intro x hx
    obtain ⟨c, hc, rfl⟩ := List.mem_map.mp hx
    exact h c hc
  rw [decodeBody, hbytes, detectEncoding_ascii hsmall]
  exact decodeUtf8_ascii h

theorem loads_of_writtenAs {limits : JsonLimits} (hascii : Ascii text)
    (h : WrittenAs (scanOnce limits.maxDigits limits.depth) text v) : limits.loads (asciiBytes text) = .ok v := by
  have hstarts := h.starts []
  have hreads := h.reads []
  rw [List.append_nil] at hstarts hreads
  rw [JsonLimits.loads, decodeBody_ascii hascii]
  simp only [hstarts, hreads]
  rfl

end Json
end Embassy
