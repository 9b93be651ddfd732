import Mathlib

/-!
# Python string operations

`strip`, `removeprefix` and `bytes.decode("utf-8", errors="replace")`, on the code points of a string.
-/

namespace Embassy

/-- The characters `str.strip()` removes (`str.isspace`). -/
def isSpace (c : Char) : Bool :=
  let n := c.toNat
  (9 ≤ n && n ≤ 13) || (28 ≤ n && n ≤ 32) || n == 0x85 || n == 0xA0 || n == 0x1680 ||
    (0x2000 ≤ n && n ≤ 0x200A) || n == 0x2028 || n == 0x2029 || n == 0x202F || n == 0x205F || n == 0x3000

/-- `str.strip()`. -/
def strip (s : String) : String :=
  String.ofList ((s.toList.dropWhile isSpace).reverse.dropWhile isSpace).reverse

theorem strip_eq_self {s : String} (h : ∀ c ∈ s.toList, isSpace c = false) : strip s = s := by
  have hdrop : ∀ l : List Char, (∀ c ∈ l, isSpace c = false) → l.dropWhile isSpace = l := by
    intro l hl
    cases l with
    | nil => rfl
    | cons c l => exact List.dropWhile_cons_of_neg (by simp [hl c])
  rw [strip, hdrop _ h, hdrop _ fun c hc => h c (List.mem_reverse.1 hc), List.reverse_reverse,
    String.ofList_toList]

theorem dropWhile_rdropWhile (p : Char → Bool) (l : List Char) :
    ((l.dropWhile p).rdropWhile p).dropWhile p = (l.dropWhile p).rdropWhile p := by
  rcases hm : (l.dropWhile p).rdropWhile p with _ | ⟨c, m⟩
  · rfl
  · obtain ⟨rest, hrest⟩ := List.rdropWhile_prefix p (l := l.dropWhile p)
    rw [hm, List.cons_append] at hrest
    have hne : l.dropWhile p ≠ [] := by
      rw [← hrest]
      exact List.cons_ne_nil _ _
    have hc := List.head_dropWhile_not p hne
    simp only [← hrest, List.head_cons] at hc
    exact List.dropWhile_cons_of_neg (by rw [hc]; exact Bool.false_ne_true)

theorem strip_strip (s : String) : strip (strip s) = strip s := by
  have hl := dropWhile_rdropWhile isSpace s.toList
  have hr := List.rdropWhile_idempotent isSpace (s.toList.dropWhile isSpace)
  unfold List.rdropWhile at hl hr
  rw [strip, strip, String.toList_ofList, hl, hr]

/-- The token of an `Authorization` header: `None` unless it starts with "Bearer ". -/
def bearerToken : Option String → Option String
  | none => none
  | some s =>
    if ("Bearer ".toList).isPrefixOf s.toList then some (strip (String.ofList (s.toList.drop 7)))
    else none

/-- The lead byte of a sequence: how many continuation bytes follow, the range of the first of them,
and the bits the lead byte gives. -/
def utf8Lead (b : UInt8) : Option (ℕ × ℕ × ℕ × ℕ) :=
  let n := b.toNat
  if 0xC2 ≤ n ∧ n ≤ 0xDF then some (1, 0x80, 0xBF, n - 0xC0)
  else if n = 0xE0 then some (2, 0xA0, 0xBF, 0)
  else if n = 0xED then some (2, 0x80, 0x9F, 0xD)
  else if 0xE1 ≤ n ∧ n ≤ 0xEF then some (2, 0x80, 0xBF, n - 0xE0)
  else if n = 0xF0 then some (3, 0x90, 0xBF, 0)
  else if n = 0xF4 then some (3, 0x80, 0x8F, 4)
  else if 0xF1 ≤ n ∧ n ≤ 0xF3 then some (3, 0x80, 0xBF, n - 0xF0)
  else none

/-- The decoder: `need` continuation bytes are outstanding, the next one in `lo..hi`, `acc` are the
bits so far. A sequence cut short gives one replacement character, and the byte that cut it is read
afresh. -/
def utf8Go : List UInt8 → (need lo hi acc : ℕ) → List Char
  | [], 0, _, _, _ => []
  | [], _ + 1, _, _, _ => ['\uFFFD']
  | b :: bs, need, lo, hi, acc =>
    let n := b.toNat
    let cont := need ≠ 0 ∧ lo ≤ n ∧ n ≤ hi
    if cont then
      let acc := acc * 64 + (n - 0x80)
      if need = 1 then Char.ofNat acc :: utf8Go bs 0 0 0 0 else utf8Go bs (need - 1) 0x80 0xBF acc
    else
      let cut := if need = 0 then [] else ['\uFFFD']
      if n < 0x80 then cut ++ Char.ofNat n :: utf8Go bs 0 0 0 0
      else
        match utf8Lead b with
        | some (need, lo, hi, acc) => cut ++ utf8Go bs need lo hi acc
        | none => cut ++ '\uFFFD' :: utf8Go bs 0 0 0 0

/-- `bytes.decode("utf-8", errors="replace")`. -/
def decodeUtf8Replace (bs : List UInt8) : String := String.ofList (utf8Go bs 0 0 0 0)

example : decodeUtf8Replace [0x68, 0xC3, 0xA9, 0xE2, 0x82, 0x41, 0xFF] = "h\u00E9\uFFFDA\uFFFD" := by
  decide

end Embassy
