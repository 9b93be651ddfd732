import Embassy.Security

/-!
# A domain that is accepted is clean

What `validate_domain` should guarantee of the name it returns (`DomainSafe`). `$` also matches before a
newline at the end, and dots are stripped after white space is: a hostname followed by a newline and dots
passes with its newline, past the suffix lists (`not_domainSafe`). For every other input the guarantee
holds (`domainSafe_iff`).
-/

namespace Embassy
open Lib

namespace Security

/-- The characters of a label, without hyphens at its ends. -/
structure IsLabel (l : List Char) : Prop where
  length : 1 ≤ l.length ∧ l.length ≤ 63
  chars : ∀ c ∈ l, isLabelChar c = true
  head : l.head? ≠ some '-'
  last : l.getLast? ≠ some '-'

/-- Labels, each followed by a dot, and a last label of letters. -/
def IsHostname (h : List Char) : Prop :=
  ∃ labels tld, labels ≠ [] ∧ (∀ l ∈ labels, IsLabel l) ∧ 2 ≤ tld.length ∧ tld.length ≤ 63 ∧
    (∀ c ∈ tld, c.isAlpha = true) ∧ h = labels.flatMap (· ++ ['.']) ++ tld

/-- What is promised of a domain that was accepted. -/
structure CleanHostname (d : String) : Prop where
  length : d.length ≤ 253
  chars : ∀ c ∈ d.toList, ('a' ≤ c ∧ c ≤ 'z') ∨ ('0' ≤ c ∧ c ≤ '9') ∨ c = '-' ∨ c = '.'
  count : 2 ≤ (d.toList.splitOn '.').length
  labels : ∀ l ∈ d.toList.splitOn '.',
    1 ≤ l.length ∧ l.length ≤ 63 ∧ l.head? ≠ some '-' ∧ l.getLast? ≠ some '-'
  last : ∀ tld ∈ (d.toList.splitOn '.').getLast?, 2 ≤ tld.length ∧ ∀ c ∈ tld, 'a' ≤ c ∧ c ≤ 'z'
  not_ip : ipAddress d = none
  not_reserved : ∀ s ∈ reservedSuffixes,
    d ≠ lstripDots s ∧ endsWith d ("." ++ lstripDots s) = false
  not_shared : ∀ s ∈ sharedHostingSuffixes, d ≠ s ∧ endsWith d ("." ++ s) = false

/-- What is promised of `validate_domain` on `s`. -/
def DomainSafe (str : Lower) (s : String) : Prop :=
  match validateDomain str s with
  | .ok d => CleanHostname d ∧ validateDomain str d = .ok d
  | .error e => ∃ detail, e = .invalidDomain detail

/-- A hostname, a newline and dots, once white space is stripped and letters are lowered. -/
def NewlineHost (str : Lower) (s : String) : Prop :=
  ∃ h dots, str.lower (strip s) = String.ofList (h ++ '\n' :: List.replicate dots '.') ∧ IsHostname h ∧
    h.length ≤ 252

section
variable {b l a h : List Char} {s t d : String} {str : Lower} {c : Char}

/-! ### Hostnames -/

theorem head?_append (hl : l ≠ []) : (l ++ a).head? = l.head? := by
  cases l with
  | nil => exact absurd rfl hl
  | cons => rfl

theorem head?_reverse_append (hl : l ≠ []) : (l.reverse ++ b).head? = l.getLast? := by
  rw [head?_append (by simpa using hl), List.head?_reverse]

theorem forall_head?_iff {o : Option Char} : (∀ x ∈ o, decide (x = '-') = false) ↔ o ≠ some '-' := by
  cases o <;> simp

theorem ne_nil_of_one_le (h : 1 ≤ l.length) : l ≠ [] := List.length_pos_iff.1 h

theorem spans_labelRe : labelRe.Spans b l a ↔ IsLabel l := by
  simp only [labelRe, Regex.spans_seq, Regex.spans_notAhead, Regex.spans_notBehind,
    Regex.spans_rep_set (show 1 ≤ 63 by decide), forall_head?_iff]
  constructor
  · rintro ⟨_, _, rfl, ⟨rfl, hhead⟩, l, _, rfl, ⟨hlo, hhi, hchars⟩, rfl, hlast⟩
    have hl := ne_nil_of_one_le hlo
    simp only [List.nil_append, List.append_nil, List.reverse_nil] at hhead hlast ⊢
    exact ⟨⟨hlo, hhi⟩, hchars, by rwa [head?_append hl] at hhead, by rwa [head?_reverse_append hl] at hlast⟩
  · intro hl
    have hne := ne_nil_of_one_le hl.length.1
    refine ⟨[], l, rfl, ⟨rfl, ?_⟩, l, [], by simp, ⟨hl.length.1, hl.length.2, hl.chars⟩, rfl, ?_⟩
    · rw [head?_append hne]; exact hl.head
    · rw [head?_reverse_append hne]; exact hl.last

theorem rounds_labels {ls : List (List Char)} :
    Regex.Rounds (.seq labelRe (.set (· = '.'))) b ls a ↔
      ∃ labels : List (List Char), (∀ l ∈ labels, IsLabel l) ∧ ls = labels.map (· ++ ['.']) := by
  induction ls generalizing b with
  | nil => exact ⟨fun _ => ⟨[], by simp, rfl⟩, fun _ => trivial⟩
  | cons m ls ih =>
    simp only [Regex.Rounds, ih, Regex.spans_seq, spans_labelRe, Regex.spans_set, decide_eq_true_eq]
    constructor
    · rintro ⟨⟨l, _, rfl, hl, _, rfl, rfl⟩, labels, hlabels, rfl⟩
      exact ⟨l :: labels, by simpa using ⟨hl, hlabels⟩, rfl⟩
    · rintro ⟨labels, hlabels, heq⟩
      cases labels with
      | nil => cases heq
      | cons l labels =>
        obtain ⟨rfl, rfl⟩ := List.cons.inj heq
        exact ⟨⟨l, _, rfl, hlabels l (by simp), '.', rfl, rfl⟩, labels,
          fun l' hl' => hlabels l' (by simp [hl']), rfl⟩

/-- A hostname, or one with a newline after it. -/
theorem isMatch_hostnameRe : hostnameRe.isMatch t = true ↔
    ∃ h, IsHostname h ∧ (t.toList = h ∨ t.toList = h ++ ['\n']) := by
  simp only [Regex.isMatch_iff, hostnameRe, Regex.spans_seq, Regex.spans_start, Regex.spans_end,
    Regex.spans_rep, rounds_labels, Regex.spans_rep_set (show 2 ≤ 63 by decide)]
  constructor
  · rintro ⟨_, a, ht, _, _, rfl, ⟨rfl, -⟩, _, _, rfl, ⟨_, rfl, hlo, -, labels, hlabels, rfl⟩, tld, _, rfl,
      htld, rfl, ha⟩
    simp only [List.nil_append, List.append_nil, List.length_map, ← List.flatMap_def] at ht hlo
    refine ⟨_, ⟨labels, tld, List.length_pos_iff.1 hlo, hlabels, htld.1, htld.2.1, htld.2.2, rfl⟩, ?_⟩
    rcases ha with rfl | rfl
    · exact .inl (by rw [ht, List.append_nil])
    · exact .inr ht
  · rintro ⟨_, ⟨labels, tld, hne, hlabels, hlo, hhi, hchars, rfl⟩, ht⟩
    obtain ⟨a, ha, ht⟩ : ∃ a, (a = [] ∨ a = ['\n']) ∧
        t.toList = labels.flatMap (· ++ ['.']) ++ tld ++ a := by
      rcases ht with ht | ht
      · exact ⟨[], .inl rfl, by rw [ht, List.append_nil]⟩
      · exact ⟨['\n'], .inr rfl, ht⟩
    refine ⟨_, a, ht, [], _, rfl, ⟨rfl, trivial⟩, _, tld, rfl, ⟨_, ?_, ?_, ?_, labels, hlabels, rfl⟩, tld, [], ?_,
      ⟨hlo, hhi, hchars⟩, rfl, ha⟩
    · exact List.flatMap_def ..
    · rw [List.length_map]; exact List.length_pos_iff.2 hne
    · rintro n ⟨⟩
    · rw [List.append_nil]

theorem not_dot_of_isLabel (hl : IsLabel l) : '.' ∉ l := fun hdot => absurd (hl.chars '.' hdot) (by decide)

theorem splitOn_hostname {labels : List (List Char)} {tld : List Char} (hlabels : ∀ l ∈ labels, IsLabel l)
    (htld : ∀ c ∈ tld, c.isAlpha = true) :
    (labels.flatMap (· ++ ['.']) ++ tld).splitOn '.' = labels ++ [tld] := by
  induction labels with
  | nil => exact List.splitOn_eq_singleton fun hdot => absurd (htld '.' hdot) (by decide)
  | cons l labels ih =>
    rw [List.flatMap_cons, List.append_assoc, List.append_assoc, List.singleton_append,
      List.splitOn_append_cons_self_of_not_mem (not_dot_of_isLabel (hlabels l (by simp))),
      ih fun l' hl' => hlabels l' (by simp [hl']), List.cons_append]

theorem isLabelChar_of_isAlpha (hc : c.isAlpha = true) : isLabelChar c = true := by
  simp [isLabelChar, Char.isAlphanum, hc]

theorem IsHostname.chars (hh : IsHostname h) : ∀ c ∈ h, isLabelChar c = true ∨ c = '.' := by
  obtain ⟨labels, tld, -, hlabels, -, -, htld, rfl⟩ := hh
  intro c hc
  rcases List.mem_append.1 hc with hc | hc
  · obtain ⟨l, hl, hc⟩ := List.mem_flatMap.1 hc
    rcases List.mem_append.1 hc with hc | hc
    · exact .inl ((hlabels l hl).chars c hc)
    · exact .inr (List.mem_singleton.1 hc)
  · exact .inl (isLabelChar_of_isAlpha (htld c hc))

theorem IsHostname.getLast? (hh : IsHostname h) : ∃ c ∈ h.getLast?, c.isAlpha = true := by
  obtain ⟨labels, tld, -, -, hlo, -, htld, rfl⟩ := hh
  have hne : tld ≠ [] := List.length_pos_iff.1 (by omega)
  refine ⟨tld.getLast hne, ?_, htld _ (List.getLast_mem hne)⟩
  rw [List.getLast?_append_of_ne_nil _ hne, List.getLast?_eq_some_getLast hne]
  rfl

theorem not_isDigit_of_isAlpha (halpha : c.isAlpha = true) : c.isDigit = false := by
  simp only [Char.isAlpha, Char.isUpper, Char.isLower, Char.isDigit, Bool.or_eq_true, Bool.and_eq_true,
    decide_eq_true_eq, Bool.and_eq_false_iff, decide_eq_false_iff_not, ge_iff_le, UInt32.le_iff_toNat_le] at *
  have hA : 'A'.val.toNat = 65 := rfl
  have ha : 'a'.val.toNat = 97 := rfl
  have h9 : '9'.val.toNat = 57 := rfl
  omega

theorem isLower_of_isAlpha (halpha : c.isAlpha = true) (hupper : c.isUpper = false) : 'a' ≤ c ∧ c ≤ 'z' := by
  rw [Char.isAlpha, hupper, Bool.false_or, Char.isLower, Bool.and_eq_true, decide_eq_true_iff,
    decide_eq_true_iff] at halpha
  exact halpha

theorem domainChar_of_isLabelChar (hc : isLabelChar c = true ∨ c = '.') (hupper : c.isUpper = false) :
    ('a' ≤ c ∧ c ≤ 'z') ∨ ('0' ≤ c ∧ c ≤ '9') ∨ c = '-' ∨ c = '.' := by
  rcases hc with hc | rfl
  · rw [isLabelChar, Char.isAlphanum, Bool.or_eq_true, Bool.or_eq_true, decide_eq_true_iff] at hc
    rcases hc with (halpha | hdigit) | rfl
    · exact .inl (isLower_of_isAlpha halpha hupper)
    · rw [Char.isDigit, Bool.and_eq_true, decide_eq_true_iff, decide_eq_true_iff] at hdigit
      exact .inr (.inl hdigit)
    · exact .inr (.inr (.inl rfl))
  · exact .inr (.inr (.inr rfl))

theorem isSome_of_mapM {α β : Type} {f : α → Option β} {xs : List α} {ys : List β}
    (hmap : xs.mapM f = some ys) : ∀ x ∈ xs, (f x).isSome := by
  induction xs generalizing ys with
  | nil => simp
  | cons x xs ih =>
    rw [List.mapM_cons] at hmap
    cases hx : f x with
    | none => rw [hx] at hmap; cases hmap
    | some y =>
      rw [hx] at hmap
      cases hxs : xs.mapM f with
      | none => simp [hxs] at hmap
      | some zs => simpa [hx] using ih hxs

/-- The last label of a hostname is no octet. -/
theorem parseIPv4_hostname (hh : IsHostname h) : parseIPv4 h = none := by
  obtain ⟨labels, tld, -, hlabels, hlo, -, htld, rfl⟩ := hh
  unfold parseIPv4
  split
  · rfl
  · rw [splitOn_hostname hlabels htld]
    cases hmap : (labels ++ [tld]).mapM parseOctet with
    | none => rfl
    | some octets =>
      have hoctet := isSome_of_mapM hmap tld (by simp)
      have hdigits : tld.all Char.isDigit = true := by
        unfold parseOctet at hoctet
        split at hoctet
        · rename_i hif; exact hif.2.1
        · cases hoctet
      obtain ⟨c, tld, rfl⟩ := List.exists_cons_of_length_pos (show 0 < tld.length by omega)
      have halpha := htld c (by simp)
      have hdigit := List.all_eq_true.1 hdigits c (by simp)
      rw [not_isDigit_of_isAlpha halpha] at hdigit
      cases hdigit

theorem parseIPv6_hostname (hh : IsHostname h) : parseIPv6 h = none := by
  unfold parseIPv6
  split
  · rfl
  · have hcolon : ':' ∉ h.takeWhile (· ≠ '%') := fun hc => by
      rcases hh.chars ':' ((List.takeWhile_sublist _).subset hc) with hc | hc
      · exact absurd hc (by decide)
      · exact absurd hc (by decide)
    have hhextets : hextets (h.takeWhile (· ≠ '%')) = none := by
      simp only [hextets, List.splitOn_eq_singleton hcolon]
      rfl
    simp only [hhextets, Option.bind_none]
    split
    · rename_i hsome
      cases hsome
    · rfl

theorem ipAddress_hostname (hh : IsHostname d.toList) : ipAddress d = none := by
  rw [ipAddress, parseIPv4_hostname hh, parseIPv6_hostname hh]

/-! ### The steps of `validate_domain` -/

/-- The domain after `strip`, `lower` and `rstrip`. -/
def normalized (str : Lower) (s : String) : String := rstripDots (str.lower (strip s))

/-- The `try` block lets everything pass. -/
theorem validateDomain_eq : validateDomain str s =
    if 253 < (normalized str s).length ∨ normalized str s = "" then
      .error (.invalidDomain "domain too long or empty")
    else checkHostname (normalized str s) := by
  obtain ⟨e, he⟩ : ∃ e, rejectIpLiteral (rstripDots (str.lower (strip s))) = .error e := by
    unfold rejectIpLiteral
    split
    · exact ⟨_, rfl⟩
    · exact ⟨_, rfl⟩
  have hcaught : e.isValueError = true := by cases e <;> rfl
  simp only [validateDomain, normalized, he, hcaught, if_true]
  rfl

theorem checkHostname_eq_ok : checkHostname t = .ok d ↔
    t = d ∧ hostnameRe.isMatch t = true ∧ isReserved t = false ∧ isSharedHosting t = false := by
  unfold checkHostname
  cases hostnameRe.isMatch t <;> cases isReserved t <;> cases isSharedHosting t <;> simp

theorem checkHostname_eq_error {e : DomainExc} (he : checkHostname t = .error e) :
    ∃ detail, e = .invalidDomain detail := by
  unfold checkHostname at he
  split at he
  · exact ⟨_, (Except.error.inj he).symm⟩
  · split at he
    · exact ⟨_, (Except.error.inj he).symm⟩
    · split at he
      · exact ⟨_, (Except.error.inj he).symm⟩
      · cases he

theorem validateDomain_eq_ok : validateDomain str s = .ok d ↔
    normalized str s = d ∧ d.length ≤ 253 ∧ d ≠ "" ∧ hostnameRe.isMatch d = true ∧ isReserved d = false ∧
      isSharedHosting d = false := by
  rw [validateDomain_eq]
  split
  · rename_i hif
    refine ⟨fun h => (by cases h), ?_⟩
    rintro ⟨rfl, hlen, hne, -⟩
    rcases hif with hif | hif
    · omega
    · exact absurd hif hne
  · rename_i hif
    rw [not_or, not_lt] at hif
    rw [checkHostname_eq_ok]
    constructor
    · rintro ⟨rfl, hcheck⟩; exact ⟨rfl, hif.1, hif.2, hcheck⟩
    · rintro ⟨rfl, -, -, hcheck⟩; exact ⟨rfl, hcheck⟩

theorem validateDomain_eq_error {e : DomainExc} (he : validateDomain str s = .error e) :
    ∃ detail, e = .invalidDomain detail := by
  rw [validateDomain_eq] at he
  split at he
  · exact ⟨_, (Except.error.inj he).symm⟩
  · exact checkHostname_eq_error he

theorem toList_rstripDots : (rstripDots s).toList = s.toList.rdropWhile (· = '.') := by
  rw [rstripDots, String.toList_ofList]

theorem not_isUpper_normalized (hc : c ∈ (normalized str s).toList) : c.isUpper = false := by
  rw [normalized, toList_rstripDots] at hc
  exact str.noUpper _ c (List.rdropWhile_prefix .. |>.subset hc)

theorem endsWith_iff {suffix : String} : endsWith t suffix = true ↔ suffix.toList <:+ t.toList := by
  rw [endsWith, decide_eq_true_iff]

theorem CleanHostname.of_hostname (hh : IsHostname d.toList) (hlen : d.length ≤ 253)
    (hupper : ∀ c ∈ d.toList, c.isUpper = false) (hreserved : isReserved d = false)
    (hshared : isSharedHosting d = false) : CleanHostname d where
  length := hlen
  chars c hc := domainChar_of_isLabelChar (hh.chars c hc) (hupper c hc)
  count := by
    obtain ⟨labels, tld, hne, hlabels, -, -, htld, heq⟩ := hh
    rw [heq, splitOn_hostname hlabels htld, List.length_append]
    have := List.length_pos_iff.2 hne
    simp only [List.length_singleton]
    omega
  labels := by
    obtain ⟨labels, tld, hne, hlabels, hlo, hhi, htld, heq⟩ := hh
    rw [heq, splitOn_hostname hlabels htld]
    intro l hl
    rcases List.mem_append.1 hl with hl | hl
    · exact ⟨(hlabels l hl).length.1, (hlabels l hl).length.2, (hlabels l hl).head, (hlabels l hl).last⟩
    · obtain rfl := List.mem_singleton.1 hl
      refine ⟨by omega, hhi, fun h => ?_, fun h => ?_⟩
      · exact absurd (htld '-' (List.mem_of_head? h)) (by decide)
      · exact absurd (htld '-' (List.mem_of_getLast? h)) (by decide)
  last := by
    obtain ⟨labels, tld, hne, hlabels, hlo, hhi, htld, heq⟩ := hh
    rw [heq] at hupper ⊢
    rw [splitOn_hostname hlabels htld, List.getLast?_concat]
    rintro _ ⟨⟩
    exact ⟨hlo, fun c hc => isLower_of_isAlpha (htld c hc) (hupper c (List.mem_append_right _ hc))⟩
  not_ip := ipAddress_hostname hh
  not_reserved s hs := by
    rw [isReserved, Bool.or_eq_false_iff, List.any_eq_false] at hreserved
    have hnot := hreserved.2 s hs
    rw [Bool.or_eq_true, not_or, decide_eq_true_iff] at hnot
    refine ⟨hnot.1, Bool.eq_false_iff.2 fun hend => hnot.2 ?_⟩
    -- a subdomain of the name ends with the suffix, which has the dot or not
    have hsuffix : ∀ s ∈ reservedSuffixes, s.toList <:+ ("." ++ lstripDots s).toList := by decide
    exact endsWith_iff.2 ((hsuffix s hs).trans (endsWith_iff.1 hend))
  not_shared s hs := by
    rw [isSharedHosting, List.any_eq_false] at hshared
    have hnot := hshared s hs
    rw [Bool.or_eq_true, not_or, decide_eq_true_iff] at hnot
    exact ⟨hnot.1, Bool.eq_false_iff.2 hnot.2⟩

theorem toNat_of_isAlphanum (hc : c.isAlphanum = true) : 48 ≤ c.toNat ∧ c.toNat ≤ 122 := by
  simp only [Char.isAlphanum, Char.isAlpha, Char.isUpper, Char.isLower, Char.isDigit, Bool.or_eq_true,
    Bool.and_eq_true, decide_eq_true_eq, ge_iff_le, UInt32.le_iff_toNat_le] at hc
  have hA : 'A'.val.toNat = 65 := rfl
  have hZ : 'Z'.val.toNat = 90 := rfl
  have ha : 'a'.val.toNat = 97 := rfl
  have hz : 'z'.val.toNat = 122 := rfl
  have h0 : '0'.val.toNat = 48 := rfl
  have h9 : '9'.val.toNat = 57 := rfl
  simp only [Char.toNat]
  omega

theorem toNat_of_hostname (hc : isLabelChar c = true ∨ c = '.') : 45 ≤ c.toNat ∧ c.toNat ≤ 122 := by
  rcases hc with hc | rfl
  · rw [isLabelChar, Bool.or_eq_true, decide_eq_true_iff] at hc
    rcases hc with hc | rfl
    · have := toNat_of_isAlphanum hc
      omega
    · decide
  · decide

theorem isSpace_eq_false (hc : 33 ≤ c.toNat ∧ c.toNat ≤ 122) : isSpace c = false := by
  simp only [isSpace, Bool.or_eq_false_iff, Bool.and_eq_false_iff, decide_eq_false_iff_not, beq_eq_false_iff_ne]
  omega

/-- A hostname without capitals is its own normal form. -/
theorem normalized_hostname (hh : IsHostname d.toList) (hupper : ∀ c ∈ d.toList, c.isUpper = false) :
    normalized str d = d := by
  have hascii : ∀ c ∈ d.toList, 45 ≤ c.toNat ∧ c.toNat ≤ 122 := fun c hc => toNat_of_hostname (hh.chars c hc)
  have hstrip : strip d = d := strip_eq_self fun c hc => isSpace_eq_false (by have := hascii c hc; omega)
  have hlower : str.lower d = d := by
    rw [str.ascii d fun c hc => by have := hascii c hc; omega, List.map_congr_left
      fun c hc => Char.toLower_eq_of_not_isUpper (by simp [hupper c hc]), List.map_id', String.ofList_toList]
  have hdots : d.toList.rdropWhile (· = '.') = d.toList := by
    obtain ⟨c, hc, halpha⟩ := hh.getLast?
    refine List.rdropWhile_eq_self_iff.2 fun hne => ?_
    rw [List.getLast?_eq_some_getLast hne] at hc
    obtain rfl := Option.some.inj hc
    simp only [decide_eq_true_eq]
    intro heq
    rw [heq] at halpha
    exact absurd halpha (by decide)
  rw [normalized, hstrip, hlower, rstripDots, hdots, String.ofList_toList]

/-! ### A newline at the end -/

theorem toList_eq_rstripDots : ∃ dots, s.toList = (rstripDots s).toList ++ List.replicate dots '.' := by
  refine ⟨(s.toList.rtakeWhile (· = '.')).length, ?_⟩
  rw [toList_rstripDots]
  have hdots : s.toList.rtakeWhile (· = '.') =
      List.replicate (s.toList.rtakeWhile (· = '.')).length '.' :=
    List.eq_replicate_of_mem fun c hc => by simpa using List.mem_rtakeWhile_imp hc
  rw [← hdots, List.rdropWhile_append_rtakeWhile]

theorem rstripDots_newline (dots : ℕ) :
    rstripDots (String.ofList (h ++ '\n' :: List.replicate dots '.')) = String.ofList (h ++ ['\n']) := by
  have hdrop : ∀ dots : ℕ, (h ++ '\n' :: List.replicate dots '.').rdropWhile (· = '.') = h ++ ['\n'] := by
    intro dots
    induction dots with
    | zero => exact List.rdropWhile_concat_neg _ _ _ (by decide)
    | succ dots ih =>
      rw [List.replicate_succ', ← List.cons_append, ← List.append_assoc,
        List.rdropWhile_concat_pos _ _ _ (by decide)]
      exact ih
  rw [rstripDots, String.toList_ofList, hdrop]

theorem newlineHost_iff : NewlineHost str s ↔
    ∃ h, (normalized str s).toList = h ++ ['\n'] ∧ IsHostname h ∧ h.length ≤ 252 := by
  constructor
  · rintro ⟨h, dots, hs, hh, hlen⟩
    refine ⟨h, ?_, hh, hlen⟩
    rw [normalized, hs, rstripDots_newline, String.toList_ofList]
  · rintro ⟨h, hs, hh, hlen⟩
    obtain ⟨dots, hdots⟩ := toList_eq_rstripDots (s := str.lower (strip s))
    rw [← normalized, hs, List.append_assoc] at hdots
    exact ⟨h, dots, by rw [← String.ofList_toList (s := str.lower (strip s)), hdots]; rfl, hh, hlen⟩

/-- The suffix lists miss a domain that ends with a newline. -/
theorem not_listed_of_newline (ht : t.toList = h ++ ['\n']) :
    isReserved t = false ∧ isSharedHosting t = false := by
  have hend : ∀ suffix : String, suffix.toList.getLast? ≠ some '\n' → suffix ≠ "" → endsWith t suffix = false := by
    intro suffix hlast hne
    refine Bool.eq_false_iff.2 fun hend => hlast ?_
    obtain ⟨m, hm⟩ := endsWith_iff.1 hend
    have hnil : suffix.toList ≠ [] := by simpa using hne
    rw [← List.getLast?_append_of_ne_nil m hnil, hm, ht, List.getLast?_concat]
  have heq : ∀ name : String, name.toList.getLast? ≠ some '\n' → t ≠ name := by
    rintro name hlast rfl
    exact hlast (by rw [ht, List.getLast?_concat])
  constructor
  · rw [isReserved, Bool.or_eq_false_iff, List.any_eq_false]
    have hlast : ∀ s ∈ reservedSuffixes, s.toList.getLast? ≠ some '\n' ∧ s ≠ "" ∧
        (lstripDots s).toList.getLast? ≠ some '\n' := by decide
    refine ⟨decide_eq_false (heq _ (by decide)), fun s hs => ?_⟩
    rw [Bool.or_eq_true, not_or, decide_eq_true_iff, hend s (hlast s hs).1 (hlast s hs).2.1]
    exact ⟨heq _ (hlast s hs).2.2, Bool.false_ne_true⟩
  · rw [isSharedHosting, List.any_eq_false]
    have hlast : ∀ s ∈ sharedHostingSuffixes, s.toList.getLast? ≠ some '\n' ∧
        ("." ++ s).toList.getLast? ≠ some '\n' ∧ "." ++ s ≠ "" := by decide
    intro s hs
    rw [Bool.or_eq_true, not_or, decide_eq_true_iff, hend _ (hlast s hs).2.1 (hlast s hs).2.2]
    exact ⟨heq s (hlast s hs).1, Bool.false_ne_true⟩

end

/-- For every string and every `str.lower`: what `validate_domain` returns is a clean hostname that it
returns again, and all it raises is `InvalidDomain`, if and only if the string is not a hostname followed
by a newline and dots. -/
theorem domainSafe_iff (str : Lower) (s : String) : DomainSafe str s ↔ ¬ NewlineHost str s := by
  rw [newlineHost_iff]
  constructor
  · rintro hsafe ⟨h, hs, hh, hlen⟩
    obtain ⟨hreserved, hshared⟩ := not_listed_of_newline hs
    have hlength : (normalized str s).length ≤ 253 := by
      rw [← String.length_toList, hs, List.length_append, List.length_singleton]
      omega
    have hok : validateDomain str s = .ok (normalized str s) := by
      refine validateDomain_eq_ok.2 ⟨rfl, hlength, ?_, isMatch_hostnameRe.2 ⟨h, hh, .inr hs⟩, hreserved, hshared⟩
      rintro hempty
      simp [hempty] at hs
    rw [DomainSafe, hok] at hsafe
    have hchars := hsafe.1.chars '\n' (by rw [hs]; simp)
    revert hchars
    decide
  · intro hnewline
    unfold DomainSafe
    split
    · rename_i d hok
      obtain ⟨hd, hlen, hne, hmatch, hreserved, hshared⟩ := validateDomain_eq_ok.1 hok
      obtain ⟨h, hh, hchars | hchars⟩ := isMatch_hostnameRe.1 hmatch
      · have hhost : IsHostname d.toList := hchars ▸ hh
        have hupper : ∀ c ∈ d.toList, c.isUpper = false := fun c hc => not_isUpper_normalized (hd.symm ▸ hc)
        exact ⟨.of_hostname hhost hlen hupper hreserved hshared,
          validateDomain_eq_ok.2 ⟨normalized_hostname hhost hupper, hlen, hne, hmatch, hreserved, hshared⟩⟩
      · refine absurd ⟨h, hd.symm ▸ hchars, hh, ?_⟩ hnewline
        rw [← String.length_toList, hchars, List.length_append, List.length_singleton] at hlen
        omega
    · rename_i e he
      exact validateDomain_eq_error he

/-- `str.lower` on ASCII. -/
def lowerAscii (s : String) : String := String.ofList (s.toList.map Char.toLower)

theorem lowerAscii_ascii (s : String) (_ : ∀ c ∈ s.toList, c.toNat < 128) :
    lowerAscii s = String.ofList (s.toList.map Char.toLower) := rfl

theorem lowerAscii_noUpper (s : String) (c : Char) (hc : c ∈ (lowerAscii s).toList) : c.isUpper = false := by
  rw [lowerAscii, String.toList_ofList] at hc
  obtain ⟨c, -, rfl⟩ := List.mem_map.1 hc
  exact Char.isUpper_toLower_eq_false c

def Lower.onAscii : Lower := ⟨lowerAscii, lowerAscii_ascii, lowerAscii_noUpper⟩

example : validateDomain .onAscii " WWW.Example.com. " = .ok "www.example.com" := by decide

/-- The newline survives, and the name is not its own normal form. -/
theorem not_domainSafe : ¬ ∀ str s, DomainSafe str s := by
  intro h
  have hok : validateDomain .onAscii "Example.com\n." = .ok "example.com\n" := by decide
  have hsafe := h .onAscii "Example.com\n."
  rw [DomainSafe, hok] at hsafe
  have hchars := hsafe.1.chars '\n' (by decide)
  revert hchars
  decide

end Security

end Embassy
