import Embassy.JsonGrammar

/-!
# The scanner follows the grammar

`Follows scan R O`: what the scanner reads is what `R` says, it reads all of it where a delimiter comes next, and
it raises something other than a `JSONDecodeError` on just the texts of `O`. It goes from the items of a
container to the container, and so to all values.
-/

namespace Embassy
namespace Json

structure Follows {α : Type} (scan : Scan α) (R : Reads α) (O : List Char → Prop) : Prop extends Consumes scan where
  sound : ∀ {v cs rest}, scan cs = .ok (v, rest) → R v cs rest
  complete : ∀ {v cs rest}, R v cs rest → Ends rest → scan cs = .ok (v, rest)
  exceeds : ∀ {cs}, scan cs = .error .other ↔ O cs
  errors : ∀ {cs e}, scan cs = .error e → e = .jsonDecodeError ∨ e = .other
  /-- Nothing begins with a delimiter. -/
  delim : ∀ {c cs}, Delim c → scan (c :: cs) = .error .jsonDecodeError

variable {α : Type} {cs cs₁ rest : List Char}

/-! ### Items -/

theorem Items.ws {R : Reads α} {close : Char} {vs : List α} (hws : Ws cs cs₁) (h : Items R close vs cs₁ rest) :
    Items R close vs cs rest := by
  cases h with
  | last hws' hv hclose => exact .last (hws.trans hws') hv hclose
  | more hws' hv hcomma h => exact .more (hws.trans hws') hv hcomma h

theorem InItem.ws {R : Reads α} {O : List Char → Prop} (hws : Ws cs cs₁) (h : InItem R O cs₁) : InItem R O cs := by
  cases h with
  | here hws' ho => exact .here (hws.trans hws') ho
  | later hws' hv hcomma h => exact .later (hws.trans hws') hv hcomma h

theorem close_spec {close : Char} (h : close = ']' ∨ close = '}') : Delim close ∧ close ≠ ',' ∧ isWs close = false := by
  rcases h with rfl | rfl
  · exact ⟨.inr (.inr (.inl rfl)), by decide, rfl⟩
  · exact ⟨.inr (.inr (.inr rfl)), by decide, rfl⟩

namespace Follows
variable {item : Scan α} {R : Reads α} {O : List Char → Prop} {close : Char} {v : α} {vs : List α}

theorem skipWs_of_ne (h : Follows item R O) (hne : item cs ≠ .error .jsonDecodeError) : skipWs cs = cs := by
  cases cs with
  | nil => rfl
  | cons c cs =>
    exact skipWs_cons (Bool.eq_false_iff.mpr fun hws => hne (h.delim (.inl hws)))

theorem skipWs_of_reads (h : Follows item R O) (hv : R v cs rest) (hrest : Ends rest) : skipWs cs = cs :=
  h.skipWs_of_ne (by rw [h.complete hv hrest]; exact fun heq => by cases heq)

theorem skipWs_of_exceeds (h : Follows item R O) (ho : O cs) : skipWs cs = cs :=
  h.skipWs_of_ne (by rw [h.exceeds.mpr ho]; exact fun heq => by cases heq)

theorem items_sound (h : Follows item R O) {n : ℕ} (hok : itemsLoop item close n cs = .ok (vs, rest)) :
    Items R close vs cs rest := by
  induction n generalizing cs vs with
  | zero => cases hok
  | succ n ih =>
    obtain ⟨⟨v, r⟩, hv, hok⟩ := bind_eq_ok hok
    dsimp only at hok
    have hws := Ws.skipWs r
    cases hsep : skipWs r with
    | nil =>
      rw [hsep] at hok
      cases hok
    | cons c r' =>
      rw [hsep] at hok hws
      dsimp only at hok
      split_ifs at hok with hclose hcomma
      · cases hok
        rw [hclose] at hws
        exact .last (.refl cs) (h.sound hv) hws
      · obtain ⟨⟨vs', r''⟩, hvs, hok⟩ := bind_eq_ok hok
        cases hok
        rw [hcomma] at hws
        exact .more (.refl cs) (h.sound hv) hws (.ws (.skipWs r') (ih hvs))

theorem items_errors (h : Follows item R O) {n : ℕ} {e : PyExc} (herr : itemsLoop item close n cs = .error e) :
    e = .jsonDecodeError ∨ e = .other ∧ InItem R O cs := by
  induction n generalizing cs with
  | zero =>
    cases herr
    exact .inl rfl
  | succ n ih =>
    rw [itemsLoop] at herr
    cases hv : item cs with
    | error e' =>
      rw [hv] at herr
      cases herr
      rcases h.errors hv with rfl | rfl
      · exact .inl rfl
      · exact .inr ⟨rfl, .here (.refl cs) (h.exceeds.mp hv)⟩
    | ok r =>
      obtain ⟨v, r⟩ := r
      rw [hv] at herr
      simp only [bind, Except.bind] at herr
      have hws := Ws.skipWs r
      cases hsep : skipWs r with
      | nil =>
        rw [hsep] at herr
        cases herr
        exact .inl rfl
      | cons c r' =>
        rw [hsep] at herr hws
        dsimp only at herr
        split_ifs at herr with hclose hcomma
        · cases herr
        · rw [hcomma] at hws
          cases hvs : itemsLoop item close n (skipWs r') with
          | error e' =>
            rw [hvs] at herr
            cases herr
            rcases ih hvs with rfl | ⟨rfl, hover⟩
            · exact .inl rfl
            · exact .inr ⟨rfl, .later (.refl cs) (h.sound hv) hws (.ws (.skipWs r') hover)⟩
          | ok => rw [hvs] at herr; cases herr
        · cases herr
          exact .inl rfl

theorem items_step (h : Follows item R O) (hclose : close = ']' ∨ close = '}') {cs₂ cs₃ : List Char} (hws : Ws cs cs₁)
    (hv : R v cs₁ cs₂) (hcomma : Ws cs₂ (',' :: cs₃)) :
    items item close (skipWs cs) = (do
      let (vs, rest) ← items item close (skipWs cs₃)
      return (v :: vs, rest)) := by
  obtain ⟨-, hne, -⟩ := close_spec hclose
  have hends := hcomma.ends (ends_cons (.inr (.inl rfl)))
  have hsep : skipWs cs₂ = ',' :: cs₃ := hcomma.skipWs_eq.trans (skipWs_cons rfl)
  rw [hws.skipWs_eq, h.skipWs_of_reads hv hends, items_eq h.toConsumes, h.complete hv hends]
  simp only [bind, Except.bind, hsep, if_neg hne.symm, if_true]

theorem items_complete (h : Follows item R O) (hclose : close = ']' ∨ close = '}') (hi : Items R close vs cs rest) :
    items item close (skipWs cs) = .ok (vs, rest) := by
  obtain ⟨hdelim, -, hws⟩ := close_spec hclose
  induction hi with
  | last hws' hv hend =>
    have hends := hend.ends (ends_cons hdelim)
    have hsep := hend.skipWs_eq.trans (skipWs_cons hws)
    rw [hws'.skipWs_eq, h.skipWs_of_reads hv hends, items_eq h.toConsumes, h.complete hv hends]
    simp only [bind, Except.bind, hsep, if_true]
    rfl
  | more hws' hv hcomma _ ih =>
    rw [h.items_step hclose hws' hv hcomma, ih]
    rfl

theorem items_of_inItem (h : Follows item R O) (hclose : close = ']' ∨ close = '}') (hi : InItem R O cs) :
    items item close (skipWs cs) = .error .other := by
  induction hi with
  | here hws ho =>
    rw [hws.skipWs_eq, h.skipWs_of_exceeds ho, items_eq h.toConsumes, h.exceeds.mpr ho]
    rfl
  | later hws hv hcomma _ ih =>
    rw [h.items_step hclose hws hv hcomma, ih]
    rfl

theorem container_sound (h : Follows item R O) (hok : container item close cs = .ok (vs, rest)) :
    Contents R close vs cs rest := by
  have hws := Ws.skipWs cs
  unfold container at hok
  cases hcs : skipWs cs with
  | nil =>
    rw [hcs] at hok
    cases hok
  | cons c cs' =>
    rw [hcs] at hok hws
    dsimp only at hok
    split_ifs at hok with hc
    · cases hok
      rw [hc] at hws
      exact .inl ⟨rfl, hws⟩
    · exact .inr (.ws hws (h.items_sound hok))

theorem container_errors (h : Follows item R O) {e : PyExc} (herr : container item close cs = .error e) :
    e = .jsonDecodeError ∨ e = .other ∧ InItem R O cs := by
  have hws := Ws.skipWs cs
  unfold container at herr
  cases hcs : skipWs cs with
  | nil =>
    rw [hcs] at herr
    cases herr
    exact .inl rfl
  | cons c cs' =>
    rw [hcs] at herr hws
    dsimp only at herr
    split_ifs at herr with hc
    · exact (h.items_errors herr).imp_right fun hover => ⟨hover.1, .ws hws hover.2⟩

theorem container_eq_items (h : Follows item R O) (hclose : close = ']' ∨ close = '}')
    (hne : items item close (skipWs cs) ≠ .error .jsonDecodeError) : container item close cs = items item close (skipWs cs) := by
  unfold container
  cases hcs : skipWs cs with
  | nil =>
    rw [hcs, items_eq h.toConsumes, h.nil] at hne
    exact absurd rfl hne
  | cons c cs' =>
    dsimp only
    split_ifs with hc
    · subst hc
      rw [hcs, items_eq h.toConsumes, h.delim (close_spec hclose).1] at hne
      exact absurd rfl hne
    · rfl

theorem container_complete (h : Follows item R O) (hclose : close = ']' ∨ close = '}') (hc : Contents R close vs cs rest) :
    container item close cs = .ok (vs, rest) := by
  rcases hc with ⟨rfl, hws⟩ | hi
  · unfold container
    rw [hws.skipWs_eq, skipWs_cons (close_spec hclose).2.2]
    exact if_pos rfl
  · have hok := h.items_complete hclose hi
    rw [h.container_eq_items hclose (by rw [hok]; exact fun heq => by cases heq), hok]

theorem container_exceeds (h : Follows item R O) (hclose : close = ']' ∨ close = '}') :
    container item close cs = .error .other ↔ InItem R O cs := by
  constructor
  · intro herr
    rcases h.container_errors herr with heq | ⟨-, hi⟩
    · cases heq
    · exact hi
  · intro hi
    have herr := h.items_of_inItem hclose hi
    rw [h.container_eq_items hclose (by rw [herr]; exact fun heq => by cases heq), herr]

end Follows

/-! ### Members -/

theorem Agrees.consumes {β : Type} {f : α → β} {scan : Scan α} {scan' : Scan β} (h : Agrees f scan scan')
    (h' : Consumes scan') : Consumes scan where
  nil := map_eq_error ((h []).symm.trans h'.nil)
  lt {cs v rest} hok := h'.lt (v := f v) (by rw [h cs, hok]; rfl)

theorem key_of_docKey {key : List ℕ} (h : docKey cs = .ok (key, rest)) : Key key cs rest := by
  cases cs with
  | nil => cases h
  | cons c cs =>
    rw [docKey] at h
    split_ifs at h with hquote
    obtain ⟨⟨ps, r⟩, hps, h⟩ := bind_eq_ok h
    obtain ⟨⟨us, cs₂⟩, hus, heq⟩ := map_eq_ok hps
    cases heq
    have hws := Ws.skipWs cs₂
    dsimp only at h
    cases hcolon : skipWs cs₂ with
    | nil =>
      rw [hcolon] at h
      cases h
    | cons d r' =>
      rw [hcolon] at h hws
      dsimp only at h
      split_ifs at h with hd
      · cases h
        exact ⟨us, cs, cs₂, r', rfl, by rw [hquote], chars_of_scanString hus, by rw [← hd]; exact hws, .skipWs r'⟩

theorem docKey_error {e : PyExc} (h : docKey cs = .error e) : e = .jsonDecodeError := by
  cases cs with
  | nil =>
    cases h
    rfl
  | cons c cs =>
    rw [docKey] at h
    split_ifs at h
    · cases hps : scanPoints cs with
      | error e' =>
        rw [hps] at h
        cases h
        exact scanString_error (map_eq_error hps)
      | ok r =>
        rw [hps] at h
        simp only [bind, Except.bind] at h
        cases hcolon : skipWs r.2 with
        | nil =>
          rw [hcolon] at h
          cases h
          rfl
        | cons d r' =>
          rw [hcolon] at h
          dsimp only at h
          split_ifs at h
          · cases h
          · cases h
            rfl
    · cases h
      rfl

theorem docKey_of_key {key : List ℕ} (h : Key key cs rest) (hrest : skipWs rest = rest) : docKey cs = .ok (key, rest) := by
  obtain ⟨us, cs₁, cs₂, cs₃, rfl, rfl, hchars, hcolon, hws⟩ := h
  have hpoints : scanPoints cs₁ = .ok (joinPairs us, cs₂) := by
    rw [scanPoints, scanString_of_chars hchars]
    rfl
  have hsep : skipWs cs₂ = ':' :: cs₃ := hcolon.skipWs_eq.trans (skipWs_cons rfl)
  rw [docKey, if_pos rfl, hpoints]
  simp only [bind, Except.bind, hsep, if_true, hws.skipWs_eq, hrest]
  rfl

theorem docMember_error {scan : Scan Doc} {e : PyExc} (h : docMember scan cs = .error e) :
    e = .jsonDecodeError ∨ ∃ key cs₁, Key key cs cs₁ ∧ scan cs₁ = .error e := by
  rw [docMember] at h
  cases hkey : docKey cs with
  | error e' =>
    rw [hkey] at h
    cases h
    exact .inl (docKey_error hkey)
  | ok r =>
    rw [hkey] at h
    simp only [bind, Except.bind] at h
    cases hv : scan r.2 with
    | error e' =>
      rw [hv] at h
      cases h
      exact .inr ⟨r.1, r.2, key_of_docKey hkey, hv⟩
    | ok r' =>
      rw [hv] at h
      cases h

theorem Follows.member {scan : Scan Doc} {R : Reads Doc} {O : List Char → Prop} (h : Follows scan R O) :
    Follows (docMember scan) (Member R) (InMember O) where
  nil := rfl
  lt hok := by
    obtain ⟨⟨key, r⟩, hkey, hok⟩ := bind_eq_ok hok
    obtain ⟨⟨v, r'⟩, hv, hok⟩ := bind_eq_ok hok
    cases hok
    exact (h.lt hv).trans ((agrees_scanKey.consumes consumes_scanKey).lt hkey)
  sound hok := by
    obtain ⟨⟨key, r⟩, hkey, hok⟩ := bind_eq_ok hok
    obtain ⟨⟨v, r'⟩, hv, hok⟩ := bind_eq_ok hok
    cases hok
    exact ⟨r, key_of_docKey hkey, h.sound hv⟩
  complete {m cs rest} hm hrest := by
    obtain ⟨cs₁, hkey, hv⟩ := hm
    rw [docMember, docKey_of_key hkey (h.skipWs_of_reads hv hrest)]
    simp only [bind, Except.bind, h.complete hv hrest]
    rfl
  exceeds {cs} := by
    constructor
    · intro herr
      rcases docMember_error herr with heq | ⟨key, cs₁, hkey, hv⟩
      · cases heq
      · exact ⟨key, cs₁, hkey, h.exceeds.mp hv⟩
    · rintro ⟨key, cs₁, hkey, ho⟩
      rw [docMember, docKey_of_key hkey (h.skipWs_of_exceeds ho)]
      simp only [bind, Except.bind, h.exceeds.mpr ho]
  errors herr := by
    rcases docMember_error herr with rfl | ⟨key, cs₁, -, hv⟩
    · exact .inl rfl
    · exact h.errors hv
  delim hc := by
    obtain ⟨-, hquote, -⟩ := delim_spec hc
    rw [docMember, docKey, if_neg hquote]
    rfl

/-! ### Values -/

section
variable {maxDigits : ℕ} {nested : Option (Scan Doc)} {c : Char} {v : Doc}

theorem docValue_eq_atom (h : c ∈ initials ∨ isDigit c = true) :
    docValue maxDigits nested (c :: cs) = (scanAtom maxDigits (c :: cs)).map fun r => (docAtom r.1, r.2) := by
  have hne : c ≠ quote ∧ c ≠ '[' ∧ c ≠ '{' := by
    refine ⟨?_, ?_, ?_⟩ <;> rintro rfl <;> exact absurd h (by decide)
  unfold docValue
  dsimp only
  rw [if_neg hne.1, if_neg (not_or.mpr hne.2)]

theorem number_head (n : Number) (rest : List Char) : ∃ c cs₁, n.text ++ rest = c :: cs₁ ∧ (c ∈ initials ∨ isDigit c = true) := by
  obtain ⟨d, ds, hint, hd⟩ := isInt_head n.isInt
  rcases n.isSign with hsign | hsign
  · exact ⟨d, ds ++ n.frac ++ n.exp ++ rest, by simp [Number.text, hsign, hint], .inr hd⟩
  · exact ⟨'-', n.int ++ n.frac ++ n.exp ++ rest, by simp [Number.text, hsign], .inl (by decide)⟩

theorem docValue_of_scalar (h : Scalar maxDigits v cs rest) (hrest : Ends rest) :
    docValue maxDigits nested cs = .ok (v, rest) := by
  cases h with
  | str h =>
    unfold docValue scanPoints
    dsimp only
    rw [if_pos rfl, scanString_of_chars h]
    rfl
  | constant h =>
    obtain ⟨c, t, heq, hc⟩ := exists_initial _ h
    have hatom : scanAtom maxDigits (_ ++ rest) = .ok (_, rest) := scanAtom_constant h
    rw [heq, List.cons_append] at hatom ⊢
    rw [docValue_eq_atom (.inl hc), hatom]
    rfl
  | num n hlong =>
    obtain ⟨c, t, heq, hc⟩ := number_head n rest
    have hatom : scanAtom maxDigits (n.text ++ rest) = scanNumber maxDigits (n.text ++ rest) := scanAtom_number n
    rw [scanNumber_of_number n hlong hrest, heq] at hatom
    rw [heq]
    rw [docValue_eq_atom hc, hatom]
    rfl

theorem docValue_of_tooLong (h : TooLong maxDigits cs) : docValue maxDigits nested cs = .error .other := by
  have hatom := scanAtom_of_tooLong h
  obtain ⟨n, rest, -, rfl, -⟩ := h
  obtain ⟨c, t, heq, hc⟩ := number_head n rest
  rw [heq] at hatom ⊢
  rw [docValue_eq_atom hc, hatom]
  rfl

theorem docValue_of_delim (h : Delim c) : docValue maxDigits nested (c :: cs) = .error .jsonDecodeError := by
  obtain ⟨-, hquote, -, -, -, hsquare, hcurly, -⟩ := delim_spec h
  unfold docValue
  dsimp only
  rw [if_neg hquote, if_neg (not_or.mpr ⟨hsquare, hcurly⟩), scanAtom_of_delim h]
  rfl

theorem docValue_ok (h : docValue maxDigits nested cs = .ok (v, rest)) :
    Scalar maxDigits v cs rest ∨ ∃ scan ∈ nested,
      (∃ vs cs₁, v = .arr vs ∧ cs = '[' :: cs₁ ∧ container scan ']' cs₁ = .ok (vs, rest)) ∨
      ∃ ms cs₁, v = .obj ms ∧ cs = '{' :: cs₁ ∧ container (docMember scan) '}' cs₁ = .ok (ms, rest) := by
  cases cs with
  | nil => cases h
  | cons c cs =>
    unfold docValue at h
    dsimp only at h
    split_ifs at h with hquote hbracket hsquare
    · obtain ⟨r, hps, heq⟩ := map_eq_ok h
      obtain ⟨⟨us, cs₂⟩, hus, heq'⟩ := map_eq_ok hps
      cases heq'
      cases heq
      rw [hquote]
      exact .inl (.str (chars_of_scanString hus))
    · cases nested with
      | none => cases h
      | some scan =>
        obtain ⟨⟨vs, r⟩, hvs, heq⟩ := map_eq_ok h
        cases heq
        exact .inr ⟨scan, rfl, .inl ⟨vs, cs, rfl, by rw [hsquare], hvs⟩⟩
    · cases nested with
      | none => cases h
      | some scan =>
        obtain ⟨⟨ms, r⟩, hms, heq⟩ := map_eq_ok h
        cases heq
        exact .inr ⟨scan, rfl, .inr ⟨ms, cs, rfl, by rw [hbracket.resolve_left hsquare], hms⟩⟩
    · obtain ⟨⟨a, r⟩, ha, heq⟩ := map_eq_ok h
      cases heq
      exact .inl (scalar_of_scanAtom ha)

theorem docValue_error {e : PyExc} (h : docValue maxDigits nested cs = .error e) :
    e = .jsonDecodeError ∨ e = .other ∧ TooLong maxDigits cs ∨
      (nested = none ∧ e = .other ∧ ∃ cs₁, cs = '[' :: cs₁ ∨ cs = '{' :: cs₁) ∨ ∃ scan ∈ nested,
        (∃ cs₁, cs = '[' :: cs₁ ∧ container scan ']' cs₁ = .error e) ∨
        ∃ cs₁, cs = '{' :: cs₁ ∧ container (docMember scan) '}' cs₁ = .error e := by
  cases cs with
  | nil =>
    cases h
    exact .inl rfl
  | cons c cs =>
    unfold docValue at h
    dsimp only at h
    split_ifs at h with hquote hbracket hsquare
    · exact .inl (scanString_error (map_eq_error (map_eq_error h)))
    · cases nested with
      | none =>
        cases h
        exact .inr (.inr (.inl ⟨rfl, rfl, cs, .inl (by rw [hsquare])⟩))
      | some scan => exact .inr (.inr (.inr ⟨scan, rfl, .inl ⟨cs, by rw [hsquare], map_eq_error h⟩⟩))
    · have hcurly := hbracket.resolve_left hsquare
      cases nested with
      | none =>
        cases h
        exact .inr (.inr (.inl ⟨rfl, rfl, cs, .inr (by rw [hcurly])⟩))
      | some scan => exact .inr (.inr (.inr ⟨scan, rfl, .inr ⟨cs, by rw [hcurly], map_eq_error h⟩⟩))
    · rcases scanAtom_error (map_eq_error h) with rfl | ⟨rfl, hlong⟩
      · exact .inl rfl
      · exact .inr (.inl ⟨rfl, hlong⟩)

theorem follows_zero (maxDigits : ℕ) : Follows (scanDoc maxDigits 0) (Value maxDigits 0) (Over maxDigits 0) where
  toConsumes := (agrees_scanOnce maxDigits 0).consumes (consumes_scanOnce maxDigits 0)
  sound hok := by
    rcases docValue_ok hok with hv | ⟨scan, hscan, -⟩
    · exact hv
    · cases hscan
  complete := docValue_of_scalar
  exceeds {cs} := by
    constructor
    · intro herr
      rcases docValue_error herr with heq | ⟨-, hlong⟩ | ⟨-, -, hbracket⟩ | ⟨scan, hscan, -⟩
      · cases heq
      · exact .inl hlong
      · exact .inr hbracket
      · cases hscan
    · rintro (hlong | ⟨cs₁, rfl | rfl⟩)
      · exact docValue_of_tooLong hlong
      · rfl
      · rfl
  errors herr := by
    rcases docValue_error herr with heq | ⟨heq, -⟩ | ⟨-, heq, -⟩ | ⟨scan, hscan, -⟩
    · exact .inl heq
    · exact .inr heq
    · exact .inr heq
    · cases hscan
  delim := docValue_of_delim

theorem follows_succ {depth : ℕ} (h : Follows (scanDoc maxDigits depth) (Value maxDigits depth) (Over maxDigits depth)) :
    Follows (scanDoc maxDigits (depth + 1)) (Value maxDigits (depth + 1)) (Over maxDigits (depth + 1)) where
  toConsumes := (agrees_scanOnce maxDigits (depth + 1)).consumes (consumes_scanOnce maxDigits (depth + 1))
  sound hok := by
    rcases docValue_ok hok with hv | ⟨scan, hscan, ⟨vs, cs₁, rfl, rfl, hvs⟩ | ⟨ms, cs₁, rfl, rfl, hms⟩⟩
    · exact .inl hv
    all_goals obtain rfl := Option.some.inj hscan
    · exact .inr (.inl ⟨vs, cs₁, rfl, rfl, h.container_sound hvs⟩)
    · exact .inr (.inr ⟨ms, cs₁, rfl, rfl, h.member.container_sound hms⟩)
  complete hv hrest := by
    rcases hv with hv | ⟨vs, cs₁, rfl, rfl, hvs⟩ | ⟨ms, cs₁, rfl, rfl, hms⟩
    · exact docValue_of_scalar hv hrest
    · exact congrArg (Except.map fun r => (Doc.arr r.1, r.2)) (h.container_complete (.inl rfl) hvs)
    · exact congrArg (Except.map fun r => (Doc.obj r.1, r.2)) (h.member.container_complete (.inr rfl) hms)
  exceeds {cs} := by
    constructor
    · intro herr
      rcases docValue_error herr with heq | ⟨-, hlong⟩ | ⟨hnone, -⟩ | ⟨scan, hscan, ⟨cs₁, rfl, hvs⟩ | ⟨cs₁, rfl, hms⟩⟩
      · cases heq
      · exact .inl hlong
      · cases hnone
      all_goals obtain rfl := Option.some.inj hscan
      · exact .inr (.inl ⟨cs₁, rfl, (h.container_exceeds (.inl rfl)).mp hvs⟩)
      · exact .inr (.inr ⟨cs₁, rfl, (h.member.container_exceeds (.inr rfl)).mp hms⟩)
    · rintro (hlong | ⟨cs₁, rfl, hi⟩ | ⟨cs₁, rfl, hi⟩)
      · exact docValue_of_tooLong hlong
      · exact congrArg (Except.map fun r => (Doc.arr r.1, r.2)) ((h.container_exceeds (.inl rfl)).mpr hi)
      · exact congrArg (Except.map fun r => (Doc.obj r.1, r.2)) ((h.member.container_exceeds (.inr rfl)).mpr hi)
  errors herr := by
    rcases docValue_error herr with heq | ⟨heq, -⟩ | ⟨hnone, -⟩ | ⟨scan, hscan, ⟨cs₁, -, hvs⟩ | ⟨cs₁, -, hms⟩⟩
    · exact .inl heq
    · exact .inr heq
    · cases hnone
    all_goals obtain rfl := Option.some.inj hscan
    · exact (h.container_errors hvs).imp_right And.left
    · exact (h.member.container_errors hms).imp_right And.left
  delim := docValue_of_delim

end

theorem follows_scanDoc (maxDigits depth : ℕ) :
    Follows (scanDoc maxDigits depth) (Value maxDigits depth) (Over maxDigits depth) := by
  induction depth with
  | zero => exact follows_zero maxDigits
  | succ depth ih => exact follows_succ ih

/-- `json.loads` raises something else than a `JSONDecodeError`. -/
def TextOver (maxDigits depth : ℕ) (cs : List Char) : Prop := ∃ cs₁, Ws cs cs₁ ∧ Over maxDigits depth cs₁

end Json

namespace JsonLimits
open Json
variable {limits : JsonLimits} {text : String}

theorem loadsText_eq_ok {v : Doc} : limits.loadsText text = .ok v ↔ Text limits.maxDigits limits.depth v text.toList := by
  have h := follows_scanDoc limits.maxDigits limits.depth
  constructor
  · intro hok
    obtain ⟨⟨v', rest⟩, hscan, hok⟩ := bind_eq_ok hok
    dsimp only at hok
    split_ifs at hok with hrest
    · cases hok
      exact ⟨_, rest, .skipWs _, h.sound hscan, skipWs_eq_nil_iff.mp hrest⟩
  · rintro ⟨cs₁, rest, hws, hv, hrest⟩
    have hends := hrest.ends ends_nil
    rw [loadsText, hws.skipWs_eq, h.skipWs_of_reads hv hends, h.complete hv hends]
    exact if_pos (skipWs_eq_nil_iff.mpr hrest)

theorem loadsText_error {e : PyExc} (herr : limits.loadsText text = .error e) :
    e = .jsonDecodeError ∨ e = .other ∧ TextOver limits.maxDigits limits.depth text.toList := by
  have h := follows_scanDoc limits.maxDigits limits.depth
  rw [loadsText] at herr
  cases hscan : scanDoc limits.maxDigits limits.depth (skipWs text.toList) with
  | error e' =>
    rw [hscan] at herr
    cases herr
    rcases h.errors hscan with rfl | rfl
    · exact .inl rfl
    · exact .inr ⟨rfl, _, .skipWs _, h.exceeds.mp hscan⟩
  | ok r =>
    rw [hscan] at herr
    simp only [bind, Except.bind] at herr
    split_ifs at herr
    · cases herr
    · cases herr
      exact .inl rfl

theorem loadsText_of_textOver (ho : TextOver limits.maxDigits limits.depth text.toList) :
    limits.loadsText text = .error .other := by
  have h := follows_scanDoc limits.maxDigits limits.depth
  obtain ⟨cs₁, hws, ho⟩ := ho
  rw [loadsText, hws.skipWs_eq, h.skipWs_of_exceeds ho, h.exceeds.mpr ho]
  rfl

end JsonLimits

end Embassy
