import Embassy.JsonDumps
import Embassy.JsonText

/-!
# What `json.loads` reads

The grammar of its texts, `NaN` and the infinities among them, as relations between a value, a text that begins
with one of its texts, and what is left; and the texts on which the scanner runs out of stack or of digits. The
scanners of strings, constants and numbers are held against it here, the others in `JsonFollows`.
-/

namespace Embassy
namespace Json

/-- `R v cs rest`: the text `cs` is one of `v`, and then `rest`. -/
abbrev Reads (α : Type) : Type := α → List Char → List Char → Prop

/-- White space, and then `rest`. -/
def Ws (cs rest : List Char) : Prop := ∃ ws, (∀ c ∈ ws, isWs c = true) ∧ cs = ws ++ rest

/-- A string literal, after its opening quote; its code units. -/
inductive Chars : Reads (List ℕ)
  | close {rest : List Char} : Chars [] (quote :: rest) rest
  | plain {c : Char} {us : List ℕ} {cs rest : List Char} (hquote : c ≠ quote) (hbackslash : c ≠ backslash)
      (hspace : 0x20 ≤ c.toNat) (h : Chars us cs rest) : Chars (c.toNat :: us) (c :: cs) rest
  | escape {e : Char} {n : ℕ} {us : List ℕ} {cs rest : List Char} (he : unescape e = some n) (h : Chars us cs rest) :
      Chars (n :: us) (backslash :: e :: cs) rest
  | unicode {h₁ h₂ h₃ h₄ : Char} {n : ℕ} {us : List ℕ} {cs rest : List Char} (hn : hexUnit h₁ h₂ h₃ h₄ = some n)
      (h : Chars us cs rest) : Chars (n :: us) (backslash :: 'u' :: h₁ :: h₂ :: h₃ :: h₄ :: cs) rest

def Digits (ds : List Char) : Prop := ds ≠ [] ∧ ∀ d ∈ ds, isDigit d = true

def NoDigit (rest : List Char) : Prop := ∀ d ∈ rest.head?, isDigit d = false

def IsSign (t : List Char) : Prop := t = [] ∨ t = ['-']

/-- No zero stands before other digits. -/
def IsInt (t : List Char) : Prop := t = ['0'] ∨ Digits t ∧ t.head? ≠ some '0'

def IsFraction (t : List Char) : Prop := t = [] ∨ ∃ ds, t = '.' :: ds ∧ Digits ds

def IsExponent (t : List Char) : Prop :=
  t = [] ∨ ∃ e sign ds, t = e :: (sign ++ ds) ∧ (e = 'e' ∨ e = 'E') ∧ (sign = [] ∨ sign = ['+'] ∨ sign = ['-']) ∧ Digits ds

structure Number where
  sign : List Char
  int : List Char
  frac : List Char
  exp : List Char
  isSign : IsSign sign
  isInt : IsInt int
  isFraction : IsFraction frac
  isExponent : IsExponent exp

def Number.text (n : Number) : List Char := n.sign ++ n.int ++ n.frac ++ n.exp

/-- `int` refuses the number. -/
def Number.TooLong (maxDigits : ℕ) (n : Number) : Prop :=
  n.frac = [] ∧ n.exp = [] ∧ maxDigits ≠ 0 ∧ maxDigits < n.int.length

/-- The values without others in them. -/
inductive Scalar (maxDigits : ℕ) : Reads Doc
  | str {us : List ℕ} {cs rest : List Char} (h : Chars us cs rest) : Scalar maxDigits (.str (joinPairs us)) (quote :: cs) rest
  | constant {l : List Char × Json} {rest : List Char} (h : l ∈ literals) :
      Scalar maxDigits (docAtom l.2) (l.1 ++ rest) rest
  | num {rest : List Char} (n : Number) (h : ¬ n.TooLong maxDigits) :
      Scalar maxDigits (.num (String.ofList n.text)) (n.text ++ rest) rest

/-- An integer that is too long, and then nothing that belongs to it. -/
def TooLong (maxDigits : ℕ) (cs : List Char) : Prop :=
  ∃ n : Number, ∃ rest, n.TooLong maxDigits ∧ cs = n.text ++ rest ∧ NoDigit rest ∧ (fraction rest).1 = [] ∧
    (exponent rest).1 = []

section
variable {α : Type}

/-- Items with commas in between, up to `close`. -/
inductive Items (R : Reads α) (close : Char) : Reads (List α)
  | last {v : α} {cs cs₁ cs₂ rest : List Char} (hws : Ws cs cs₁) (hv : R v cs₁ cs₂) (hclose : Ws cs₂ (close :: rest)) :
      Items R close [v] cs rest
  | more {v : α} {vs : List α} {cs cs₁ cs₂ cs₃ rest : List Char} (hws : Ws cs cs₁) (hv : R v cs₁ cs₂)
      (hcomma : Ws cs₂ (',' :: cs₃)) (h : Items R close vs cs₃ rest) : Items R close (v :: vs) cs rest

/-- After the opening bracket: nothing, or items. -/
def Contents (R : Reads α) (close : Char) : Reads (List α) := fun vs cs rest =>
  vs = [] ∧ Ws cs (close :: rest) ∨ Items R close vs cs rest

/-- It goes wrong in one of the items. -/
inductive InItem (R : Reads α) (O : List Char → Prop) : List Char → Prop
  | here {cs cs₁ : List Char} (hws : Ws cs cs₁) (ho : O cs₁) : InItem R O cs
  | later {v : α} {cs cs₁ cs₂ cs₃ : List Char} (hws : Ws cs cs₁) (hv : R v cs₁ cs₂) (hcomma : Ws cs₂ (',' :: cs₃))
      (h : InItem R O cs₃) : InItem R O cs

end

def Key : Reads (List ℕ) := fun key cs rest =>
  ∃ us cs₁ cs₂ cs₃, key = joinPairs us ∧ cs = quote :: cs₁ ∧ Chars us cs₁ cs₂ ∧ Ws cs₂ (':' :: cs₃) ∧ Ws cs₃ rest

def Member (R : Reads Doc) : Reads (List ℕ × Doc) := fun m cs rest => ∃ cs₁, Key m.1 cs cs₁ ∧ R m.2 cs₁ rest

def InMember (O : List Char → Prop) (cs : List Char) : Prop := ∃ key cs₁, Key key cs cs₁ ∧ O cs₁

/-- Values with at most so many containers around each other. -/
def Value (maxDigits : ℕ) : ℕ → Reads Doc
  | 0 => Scalar maxDigits
  | depth + 1 => fun v cs rest =>
    Scalar maxDigits v cs rest ∨
      (∃ vs cs₁, v = .arr vs ∧ cs = '[' :: cs₁ ∧ Contents (Value maxDigits depth) ']' vs cs₁ rest) ∨
      ∃ ms cs₁, v = .obj ms ∧ cs = '{' :: cs₁ ∧ Contents (Member (Value maxDigits depth)) '}' ms cs₁ rest

/-- A value begins that nests too deep, or has an integer that is too long. -/
def Over (maxDigits : ℕ) : ℕ → List Char → Prop
  | 0 => fun cs => TooLong maxDigits cs ∨ ∃ cs₁, cs = '[' :: cs₁ ∨ cs = '{' :: cs₁
  | depth + 1 => fun cs =>
    TooLong maxDigits cs ∨ (∃ cs₁, cs = '[' :: cs₁ ∧ InItem (Value maxDigits depth) (Over maxDigits depth) cs₁) ∨
      ∃ cs₁, cs = '{' :: cs₁ ∧ InItem (Member (Value maxDigits depth)) (InMember (Over maxDigits depth)) cs₁

/-- White space around a value. -/
def Text (maxDigits depth : ℕ) (v : Doc) (cs : List Char) : Prop :=
  ∃ cs₁ rest, Ws cs cs₁ ∧ Value maxDigits depth v cs₁ rest ∧ Ws rest []

variable {c : Char} {cs cs₁ cs₂ rest ds : List Char} {us : List ℕ} {maxDigits : ℕ}

namespace Ws

theorem refl (cs : List Char) : Ws cs cs := ⟨[], List.forall_mem_nil _, rfl⟩

theorem trans (h : Ws cs cs₁) (h' : Ws cs₁ cs₂) : Ws cs cs₂ := by
  obtain ⟨ws, hws, rfl⟩ := h
  obtain ⟨ws', hws', rfl⟩ := h'
  refine ⟨ws ++ ws', fun c hc => ?_, (List.append_assoc ..).symm⟩
  rcases List.mem_append.mp hc with hc | hc
  · exact hws c hc
  · exact hws' c hc

theorem skipWs (cs : List Char) : Ws cs (Json.skipWs cs) :=
  ⟨cs.takeWhile isWs, fun _ hc => List.mem_takeWhile_imp hc, List.takeWhile_append_dropWhile.symm⟩

theorem skipWs_eq (h : Ws cs rest) : Json.skipWs cs = Json.skipWs rest := by
  obtain ⟨ws, hws, rfl⟩ := h
  exact List.dropWhile_append_of_pos hws

end Ws

theorem skipWs_cons (h : isWs c = false) : skipWs (c :: cs) = c :: cs := List.dropWhile_cons_of_neg (by simp [h])

theorem skipWs_eq_nil_iff : skipWs cs = [] ↔ Ws cs [] := by
  constructor
  · intro h
    rw [← h]
    exact Ws.skipWs cs
  · exact fun h => h.skipWs_eq

/-- What may follow a value. -/
def Delim (c : Char) : Prop := isWs c = true ∨ c = ',' ∨ c = ']' ∨ c = '}'

def Ends (rest : List Char) : Prop := ∀ c ∈ rest.head?, Delim c

def initials : List Char := ['n', 't', 'f', 'N', 'I', '-']

theorem exists_initial : ∀ l ∈ literals, ∃ c t, l.1 = c :: t ∧ c ∈ initials := by simp [literals, initials]

theorem delim_spec (h : Delim c) : isDigit c = false ∧ c ≠ quote ∧ c ≠ '.' ∧ c ≠ 'e' ∧ c ≠ 'E' ∧ c ≠ '[' ∧ c ≠ '{' ∧
    c ∉ initials := by
  have hn : ∀ n, c.toNat = n → c = Char.ofNat n := fun n hn => by rw [← hn, Char.ofNat_toNat]
  rcases h with hws | rfl | rfl | rfl
  · rcases of_decide_eq_true hws with h | h | h | h <;> obtain rfl := hn _ h <;> decide
  all_goals decide

theorem ends_nil : Ends [] := fun _ hc => by cases hc

theorem ends_cons (h : Delim c) : Ends (c :: cs) := by
  intro d hd
  obtain rfl := Option.some.inj hd
  exact h

theorem Ws.ends (h : Ws cs rest) (hrest : Ends rest) : Ends cs := by
  obtain ⟨ws, hws, rfl⟩ := h
  cases ws with
  | nil => exact hrest
  | cons c ws => exact ends_cons (.inl (hws c List.mem_cons_self))

theorem map_eq_error {ε α β : Type} {x : Except ε α} {f : α → β} {e : ε} (h : x.map f = .error e) : x = .error e := by
  cases x with
  | error => rw [Except.error.inj h]
  | ok => cases h

theorem chars_of_scanString (h : scanString cs = .ok (us, rest)) : Chars us cs rest := by
  fun_induction scanString cs generalizing us rest with
  | case2 =>
    cases h
    exact .close
  | case4 h₁ h₂ h₃ h₄ cs n hn _ _ ih =>
    obtain ⟨r, hr, heq⟩ := map_eq_ok h
    cases heq
    exact .unicode hn (ih hr)
  | case6 e cs _ n he _ _ ih =>
    obtain ⟨r, hr, heq⟩ := map_eq_ok h
    cases heq
    exact .escape he (ih hr)
  | case9 c cs hquote hspace hbackslash ih =>
    obtain ⟨r, hr, heq⟩ := map_eq_ok h
    cases heq
    exact .plain hquote hbackslash (Nat.le_of_not_lt hspace) (ih hr)
  | _ => cases h

theorem scanString_of_chars (h : Chars us cs rest) : scanString cs = .ok (us, rest) := by
  induction h with
  | close =>
    rw [scanString.eq_def]
    exact if_pos rfl
  | plain hquote hbackslash hspace _ ih =>
    rw [scanString_plain hquote hbackslash hspace, ih]
    rfl
  | escape he _ ih =>
    exact (scanString_unescape he _).trans (by rw [ih]; rfl)
  | unicode hn _ ih =>
    rw [scanString, if_neg (by decide), if_neg (by decide), if_pos rfl]
    simp only [hn, ih]
    rfl

theorem scanString_error {e : PyExc} (h : scanString cs = .error e) : e = .jsonDecodeError := by
  fun_induction scanString cs with
  | case2 => cases h
  | case4 _ _ _ _ _ _ _ _ _ ih | case6 _ _ _ _ _ _ _ ih | case9 _ _ _ _ _ ih => exact ih (map_eq_error h)
  | _ =>
    cases h
    rfl

/-! ### Numbers -/

theorem noDigit_dropWhile (cs : List Char) : NoDigit (cs.dropWhile isDigit) := by
  intro d hd
  obtain ⟨tail, htail⟩ := List.head?_eq_some_iff.mp hd
  have hne : cs.dropWhile isDigit ≠ [] := by simp [htail]
  have hhead := List.head_dropWhile_not isDigit hne
  simpa [htail] using hhead

theorem span_digits (hds : ∀ d ∈ ds, isDigit d = true) (hrest : NoDigit rest) :
    (ds ++ rest).takeWhile isDigit = ds ∧ (ds ++ rest).dropWhile isDigit = rest := by
  rw [List.takeWhile_append_of_pos hds, List.dropWhile_append_of_pos hds]
  cases rest with
  | nil => exact ⟨List.append_nil ds, rfl⟩
  | cons c rest =>
    have hc := hrest c rfl
    rw [List.takeWhile_cons_of_neg (by simp [hc]), List.dropWhile_cons_of_neg (by simp [hc]), List.append_nil]
    exact ⟨rfl, rfl⟩

theorem digits_takeWhile (h : (cs.takeWhile isDigit).isEmpty = false) : Digits (cs.takeWhile isDigit) :=
  ⟨by simpa using h, fun _ hd => List.mem_takeWhile_imp hd⟩

theorem numberSign_spec (cs : List Char) : IsSign (numberSign cs).1 ∧ (numberSign cs).1 ++ (numberSign cs).2 = cs := by
  unfold numberSign
  split
  · exact ⟨.inr rfl, rfl⟩
  · exact ⟨.inl rfl, rfl⟩

theorem numberSign_append {sign : List Char} (h : IsSign sign) (hrest : rest.head? ≠ some '-') :
    numberSign (sign ++ rest) = (sign, rest) := by
  rcases h with rfl | rfl
  · rw [List.nil_append]
    unfold numberSign
    split
    · exact absurd List.head?_cons hrest
    · rfl
  · rfl

theorem intDigits_spec {int : List Char} (h : intDigits cs = some (int, rest)) :
    IsInt int ∧ int ++ rest = cs ∧ (int = ['0'] ∨ NoDigit rest) := by
  cases cs with
  | nil => cases h
  | cons c cs =>
    unfold intDigits at h
    dsimp only at h
    split_ifs at h with hzero hdigit
    · cases h
      exact ⟨.inl (by rw [hzero]), rfl, .inl (by rw [hzero])⟩
    · cases h
      refine ⟨.inr ⟨⟨List.cons_ne_nil _ _, ?_⟩, fun hc => hzero (Option.some.inj hc)⟩, ?_, .inr (noDigit_dropWhile cs)⟩
      · exact List.forall_mem_cons.mpr ⟨hdigit, fun _ hd => List.mem_takeWhile_imp hd⟩
      · rw [List.cons_append, List.takeWhile_append_dropWhile]

theorem intDigits_append {int : List Char} (h : IsInt int) (hrest : NoDigit rest) :
    intDigits (int ++ rest) = some (int, rest) := by
  rcases h with rfl | ⟨⟨hne, hds⟩, hzero⟩
  · rfl
  · obtain ⟨c, ds, rfl⟩ := List.exists_cons_of_ne_nil hne
    obtain ⟨hc, hds⟩ := List.forall_mem_cons.mp hds
    obtain ⟨htake, hdrop⟩ := span_digits hds hrest
    have hc0 : c ≠ '0' := fun heq => hzero (congrArg some heq)
    rw [List.cons_append, intDigits, if_neg hc0, if_pos hc, htake, hdrop]

theorem fraction_spec (cs : List Char) : IsFraction (fraction cs).1 ∧ (fraction cs).1 ++ (fraction cs).2 = cs := by
  unfold fraction
  split
  · split_ifs with hempty
    · exact ⟨.inl rfl, rfl⟩
    · refine ⟨.inr ⟨_, rfl, digits_takeWhile (by simpa using hempty)⟩, ?_⟩
      rw [List.cons_append, List.takeWhile_append_dropWhile]
  · exact ⟨.inl rfl, rfl⟩

theorem fraction_append {frac : List Char} (h : IsFraction frac) (hrest : NoDigit rest) (hpoint : rest.head? ≠ some '.') :
    fraction (frac ++ rest) = (frac, rest) := by
  rcases h with rfl | ⟨ds, rfl, hne, hds⟩
  · rw [List.nil_append]
    unfold fraction
    split
    · exact absurd List.head?_cons hpoint
    · rfl
  · obtain ⟨htake, hdrop⟩ := span_digits hds hrest
    rw [List.cons_append, fraction, htake, hdrop, if_neg (by simpa using hne)]

theorem exponent_spec (cs : List Char) : IsExponent (exponent cs).1 ∧ (exponent cs).1 ++ (exponent cs).2 = cs := by
  have hsign : ∀ cs, ((expSign cs).1 = [] ∨ (expSign cs).1 = ['+'] ∨ (expSign cs).1 = ['-']) ∧
      (expSign cs).1 ++ (expSign cs).2 = cs := by
    intro cs
    unfold expSign
    split
    · split_ifs with hc
      · rcases hc with rfl | rfl <;> simp
      · exact ⟨.inl rfl, rfl⟩
    · exact ⟨.inl rfl, rfl⟩
  unfold exponent
  split
  · rename_i c rest
    obtain ⟨hs, happ⟩ := hsign rest
    dsimp only
    split_ifs with hc
    · refine ⟨.inr ⟨c, _, _, rfl, hc.1, hs, digits_takeWhile (by simpa using hc.2)⟩, ?_⟩
      dsimp only
      rw [List.cons_append, List.cons_append, List.append_assoc, List.takeWhile_append_dropWhile, happ]
    · exact ⟨.inl rfl, rfl⟩
  · exact ⟨.inl rfl, rfl⟩

theorem exponent_append {exp : List Char} (h : IsExponent exp) (hrest : NoDigit rest)
    (hexp : rest.head? ≠ some 'e' ∧ rest.head? ≠ some 'E') : exponent (exp ++ rest) = (exp, rest) := by
  rcases h with rfl | ⟨e, sign, ds, rfl, he, hsign, hne, hds⟩
  · cases rest with
    | nil => rfl
    | cons c rest =>
      have hc : ¬ (c = 'e' ∨ c = 'E') := by
        rintro (rfl | rfl)
        · exact hexp.1 rfl
        · exact hexp.2 rfl
      rw [List.nil_append, exponent]
      dsimp only
      rw [if_neg fun h => hc h.1]
  · have hexpSign : expSign (sign ++ (ds ++ rest)) = (sign, ds ++ rest) := by
      rcases hsign with rfl | rfl | rfl
      · obtain ⟨d, ds, rfl⟩ := List.exists_cons_of_ne_nil hne
        have hd : ¬ (d = '+' ∨ d = '-') := by
          have hdigit := hds d List.mem_cons_self
          rintro (rfl | rfl) <;> exact absurd hdigit (by decide)
        exact if_neg hd
      · rfl
      · rfl
    obtain ⟨htake, hdrop⟩ := span_digits hds hrest
    rw [List.cons_append, List.append_assoc, exponent, hexpSign]
    dsimp only
    rw [htake, hdrop, if_pos ⟨he, by simpa using hne⟩, List.cons_append]

theorem isInt_head {int : List Char} (h : IsInt int) : ∃ d ds, int = d :: ds ∧ isDigit d = true := by
  rcases h with rfl | ⟨⟨hne, hds⟩, -⟩
  · exact ⟨'0', [], rfl, rfl⟩
  · obtain ⟨d, ds, rfl⟩ := List.exists_cons_of_ne_nil hne
    exact ⟨d, ds, rfl, hds d List.mem_cons_self⟩

theorem scanNumber_append {sign int : List Char} (hsign : IsSign sign) (hint : IsInt int) (hrest : NoDigit rest) :
    scanNumber maxDigits (sign ++ (int ++ rest)) =
      if (fraction rest).1 = [] ∧ (exponent (fraction rest).2).1 = [] ∧ maxDigits ≠ 0 ∧ maxDigits < int.length then
        .error .other
      else .ok (.num (String.ofList (sign ++ int ++ (fraction rest).1 ++ (exponent (fraction rest).2).1)),
        (exponent (fraction rest).2).2) := by
  have hhead : (int ++ rest).head? ≠ some '-' := by
    obtain ⟨d, ds, rfl, hd⟩ := isInt_head hint
    rintro heq
    obtain rfl := Option.some.inj heq
    exact absurd hd (by decide)
  unfold scanNumber
  rw [numberSign_append hsign hhead]
  dsimp only
  rw [intDigits_append hint hrest]

/-- After a number, which goes on with nothing that follows. -/
theorem scanNumber_of_number (n : Number) (hlong : ¬ n.TooLong maxDigits) (h : Ends rest) :
    scanNumber maxDigits (n.text ++ rest) = .ok (.num (String.ofList n.text), rest) := by
  have hends : ∀ c ∈ rest.head?, isDigit c = false ∧ c ≠ '.' ∧ c ≠ 'e' ∧ c ≠ 'E' := by
    intro c hc
    obtain ⟨hdigit, -, hpoint, he, hE, -⟩ := delim_spec (h c hc)
    exact ⟨hdigit, hpoint, he, hE⟩
  have hexp : ∀ c ∈ (n.exp ++ rest).head?, isDigit c = false ∧ c ≠ '.' := by
    rcases n.isExponent with hnil | ⟨e, sign, ds, heq, he, -⟩
    · rw [hnil]
      exact fun c hc => ⟨(hends c hc).1, (hends c hc).2.1⟩
    · rw [heq]
      intro c hc
      obtain rfl := Option.some.inj hc
      rcases he with rfl | rfl <;> decide
  have hfrac : NoDigit (n.frac ++ (n.exp ++ rest)) := by
    rcases n.isFraction with hnil | ⟨ds, heq, -⟩
    · rw [hnil]
      exact fun c hc => (hexp c hc).1
    · rw [heq]
      intro c hc
      obtain rfl := Option.some.inj hc
      rfl
  have hfraction : fraction (n.frac ++ (n.exp ++ rest)) = (n.frac, n.exp ++ rest) :=
    fraction_append n.isFraction (fun c hc => (hexp c hc).1) fun hc => (hexp _ hc).2 rfl
  have hexponent : exponent (n.exp ++ rest) = (n.exp, rest) :=
    exponent_append n.isExponent (fun c hc => (hends c hc).1)
      ⟨fun hc => (hends _ hc).2.2.1 rfl, fun hc => (hends _ hc).2.2.2 rfl⟩
  have htext : n.text ++ rest = n.sign ++ (n.int ++ (n.frac ++ (n.exp ++ rest))) := by
    simp only [Number.text, List.append_assoc]
  rw [htext, scanNumber_append n.isSign n.isInt hfrac, hfraction, hexponent, Number.text]
  exact if_neg hlong

theorem number_of_scanNumber {v : Json} (h : scanNumber maxDigits cs = .ok (v, rest)) :
    ∃ n : Number, ¬ n.TooLong maxDigits ∧ v = .num (String.ofList n.text) ∧ cs = n.text ++ rest := by
  obtain ⟨hsign, hcs⟩ := numberSign_spec cs
  unfold scanNumber at h
  dsimp only at h
  cases hint : intDigits (numberSign cs).2 with
  | none => rw [hint] at h; cases h
  | some r =>
    obtain ⟨int, tail⟩ := r
    obtain ⟨hisInt, hdigits, -⟩ := intDigits_spec hint
    obtain ⟨hfraction, htail⟩ := fraction_spec tail
    obtain ⟨hexponent, hrest⟩ := exponent_spec (fraction tail).2
    rw [hint] at h
    dsimp only at h
    split_ifs at h with hlong
    cases h
    refine ⟨⟨_, int, _, _, hsign, hisInt, hfraction, hexponent⟩, hlong, rfl, ?_⟩
    simp only [Number.text, List.append_assoc, hrest, htail, hdigits, hcs]

theorem scanNumber_error {e : PyExc} (h : scanNumber maxDigits cs = .error e) :
    e = .jsonDecodeError ∨ e = .other ∧ TooLong maxDigits cs := by
  obtain ⟨hsign, hcs⟩ := numberSign_spec cs
  unfold scanNumber at h
  dsimp only at h
  cases hint : intDigits (numberSign cs).2 with
  | none =>
    rw [hint] at h
    cases h
    exact .inl rfl
  | some r =>
    obtain ⟨int, tail⟩ := r
    obtain ⟨hisInt, hdigits, htail⟩ := intDigits_spec hint
    rw [hint] at h
    dsimp only at h
    split_ifs at h with hlong
    cases h
    obtain ⟨hfrac, hexp, hmax, hlen⟩ := hlong
    have hfraction := (fraction_spec tail).2
    rw [hfrac, List.nil_append] at hfraction
    rw [hfraction] at hexp
    have hno : NoDigit tail := by
      refine htail.resolve_left fun hzero => ?_
      rw [hzero, List.length_singleton] at hlen
      omega
    refine .inr ⟨rfl, ⟨_, int, [], [], hsign, hisInt, .inl rfl, .inl rfl⟩, tail, ⟨rfl, rfl, hmax, hlen⟩, ?_, hno, hfrac, hexp⟩
    simp only [Number.text, List.append_nil, List.append_assoc, hdigits, hcs]

theorem scanNumber_of_tooLong (h : TooLong maxDigits cs) : scanNumber maxDigits cs = .error .other := by
  obtain ⟨n, rest, ⟨hfrac, hexp, hlong⟩, rfl, hno, hfraction, hexponent⟩ := h
  have htext : n.text ++ rest = n.sign ++ (n.int ++ rest) := by
    simp only [Number.text, hfrac, hexp, List.append_nil, List.append_assoc]
  have htail := (fraction_spec rest).2
  rw [hfraction, List.nil_append] at htail
  rw [htext, scanNumber_append n.isSign n.isInt hno, if_pos ⟨hfraction, by rw [htail]; exact hexponent, hlong⟩]

theorem scanAtom_of_find_eq_none (h : ∀ l ∈ literals, ¬ l.1 <+: cs) : scanAtom maxDigits cs = scanNumber maxDigits cs := by
  have hnone : (literals.find? fun l => l.1.isPrefixOf cs) = none := by
    rw [List.find?_eq_none]
    exact fun l hl hp => h l hl (List.isPrefixOf_iff_prefix.mp hp)
  unfold scanAtom
  rw [hnone]

theorem no_literal_before_number {sign int : List Char} (hsign : IsSign sign) (hint : IsInt int) :
    ∀ l ∈ literals, ¬ l.1 <+: sign ++ (int ++ rest) := by
  have hliterals : ∀ l ∈ literals, (∃ c t, l.1 = c :: t ∧ isDigit c = false ∧ c ≠ '-') ∨
      ∃ c t, l.1 = '-' :: c :: t ∧ isDigit c = false := by simp [literals, isDigit]
  obtain ⟨d, ds, rfl, hd⟩ := isInt_head hint
  intro l hl hp
  rcases hliterals l hl with ⟨c, t, heq, hc, hminus⟩ | ⟨c, t, heq, hc⟩
  all_goals
    rw [heq] at hp
    rcases hsign with rfl | rfl
  · obtain rfl := (List.cons_prefix_cons.mp hp).1
    rw [hc] at hd
    cases hd
  · exact hminus (List.cons_prefix_cons.mp hp).1
  · obtain rfl := (List.cons_prefix_cons.mp hp).1
    exact absurd hd (by decide)
  · obtain rfl := (List.cons_prefix_cons.mp (List.cons_prefix_cons.mp hp).2).1
    rw [hc] at hd
    cases hd

theorem scanAtom_number (n : Number) : scanAtom maxDigits (n.text ++ rest) = scanNumber maxDigits (n.text ++ rest) := by
  have htext : n.text ++ rest = n.sign ++ (n.int ++ (n.frac ++ (n.exp ++ rest))) := by
    simp only [Number.text, List.append_assoc]
  rw [htext]
  exact scanAtom_of_find_eq_none (no_literal_before_number n.isSign n.isInt)

theorem literals_eq : literals = [(['n', 'u', 'l', 'l'], .null), (['t', 'r', 'u', 'e'], .bool true),
    (['f', 'a', 'l', 's', 'e'], .bool false), (['N', 'a', 'N'], .num "NaN"),
    (['I', 'n', 'f', 'i', 'n', 'i', 't', 'y'], .num "Infinity"),
    (['-', 'I', 'n', 'f', 'i', 'n', 'i', 't', 'y'], .num "-Infinity")] := by simp [literals]

theorem scanAtom_constant {l : List Char × Json} (h : l ∈ literals) : scanAtom maxDigits (l.1 ++ rest) = .ok (l.2, rest) := by
  have hfind : (literals.find? fun l' => l'.1.isPrefixOf (l.1 ++ rest)) = some l := by
    rw [literals_eq] at h ⊢
    simp only [List.mem_cons, List.not_mem_nil, or_false] at h
    rcases h with rfl | rfl | rfl | rfl | rfl | rfl <;> rfl
  unfold scanAtom
  rw [hfind]
  exact congrArg (fun t => Except.ok (l.2, t)) List.drop_left

theorem scalar_of_scanAtom {v : Json} (h : scanAtom maxDigits cs = .ok (v, rest)) : Scalar maxDigits (docAtom v) cs rest := by
  unfold scanAtom at h
  split at h
  · rename_i text v' hfind
    cases h
    obtain ⟨tail, rfl⟩ : text <+: cs := by simpa using List.find?_some hfind
    rw [List.drop_left]
    exact .constant (List.mem_of_find?_eq_some hfind)
  · obtain ⟨n, hlong, rfl, rfl⟩ := number_of_scanNumber h
    exact .num n hlong

theorem scanAtom_error {e : PyExc} (h : scanAtom maxDigits cs = .error e) :
    e = .jsonDecodeError ∨ e = .other ∧ TooLong maxDigits cs := by
  unfold scanAtom at h
  split at h
  · cases h
  · exact scanNumber_error h

theorem scanAtom_of_tooLong (h : TooLong maxDigits cs) : scanAtom maxDigits cs = .error .other := by
  obtain ⟨n, rest, hlong, rfl, hrest⟩ := h
  rw [scanAtom_number]
  exact scanNumber_of_tooLong ⟨n, rest, hlong, rfl, hrest⟩

theorem scanAtom_of_delim (h : Delim c) : scanAtom maxDigits (c :: cs) = .error .jsonDecodeError := by
  obtain ⟨hdigit, -, -, -, -, -, -, hinitial⟩ := delim_spec h
  have hno : ∀ l ∈ literals, ¬ l.1 <+: c :: cs := by
    intro l hl hp
    obtain ⟨d, t, heq, hd⟩ := exists_initial l hl
    rw [heq] at hp
    obtain rfl := (List.cons_prefix_cons.mp hp).1
    exact hinitial hd
  have hminus : (c :: cs).head? ≠ some '-' := by
    rintro heq
    obtain rfl := Option.some.inj heq
    exact hinitial (by decide)
  have hzero : c ≠ '0' := by
    rintro rfl
    cases hdigit
  have hsign : numberSign (c :: cs) = ([], c :: cs) := numberSign_append (.inl rfl) hminus
  have hint : intDigits (c :: cs) = none := by
    rw [intDigits, if_neg hzero, if_neg (by simp [hdigit])]
  rw [scanAtom_of_find_eq_none hno, scanNumber, hsign, hint]

end Json

end Embassy
