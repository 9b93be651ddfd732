import Mathlib

/-!
# Regular expressions with assertions

A backtracking matcher without groups: `run` lists the positions an expression can lead to. A position is
what was read, last character first, and what is left. `Spans r b l a` says that `r` matches `l` where `b`
was read before and `a` comes after; each constructor has one equation for it.
-/

namespace Lib

inductive Regex
  /-- One character of a class. -/
  | set (p : Char → Bool)
  | seq (r s : Regex)
  /-- From `lo` to `hi` times, or any number of times from `lo` on. -/
  | rep (lo : ℕ) (hi : Option ℕ) (r : Regex)
  /-- `(?!p)` for a class of characters. -/
  | notAhead (p : Char → Bool)
  /-- `(?<!p)` for a class of characters. -/
  | notBehind (p : Char → Bool)
  /-- `^` -/
  | start
  /-- `$`: at the end, or before a newline that ends the string. -/
  | end_

namespace Regex

structure Pos where
  before : List Char
  after : List Char
  deriving DecidableEq

/-- `n` times. -/
def times (f : Pos → List Pos) : ℕ → Pos → List Pos
  | 0, p => [p]
  | n + 1, p => (f p).flatMap (times f n)

/-- At most `n` times. -/
def upTo (f : Pos → List Pos) : ℕ → Pos → List Pos
  | 0, p => [p]
  | n + 1, p => p :: (f p).flatMap (upTo f n)

/-- The positions after a match. A repetition without bound is cut off where every further round would
match nothing. -/
def run : Regex → Pos → List Pos
  | set p, ⟨b, a⟩ =>
    match a with
    | [] => []
    | c :: a => if p c then [⟨c :: b, a⟩] else []
  | seq r s, p => (run r p).flatMap (run s)
  | rep lo hi r, p => (times (run r) lo p).flatMap fun q => upTo (run r) (hi.elim q.after.length (· - lo)) q
  | notAhead c, p => if p.after.head?.any c then [] else [p]
  | notBehind c, p => if p.before.head?.any c then [] else [p]
  | start, p => if p.before = [] then [p] else []
  | end_, p => if p.after = [] ∨ p.after = ['\n'] then [p] else []

/-- `re.match` finds a match. -/
def isMatch (r : Regex) (s : String) : Bool := run r ⟨[], s.toList⟩ ≠ []

def Spans (r : Regex) (b l a : List Char) : Prop := ⟨l.reverse ++ b, a⟩ ∈ run r ⟨b, l ++ a⟩

/-- Rounds that match one after the other. -/
def Rounds (r : Regex) : List Char → List (List Char) → List Char → Prop
  | _, [], _ => True
  | b, l :: ls, a => Spans r b l (ls.flatten ++ a) ∧ Rounds r (l.reverse ++ b) ls a

variable {r s : Regex} {f : Pos → List Pos} {p q : Pos} {a b l : List Char} {n lo : ℕ} {c : Char → Bool}

/-! ### Progress -/

/-- From `p` to `q` a list of characters was read. -/
def Reads (p q : Pos) : Prop := ∃ l, p.after = l ++ q.after ∧ q.before = l.reverse ++ p.before

theorem Reads.refl (p : Pos) : Reads p p := ⟨[], rfl, rfl⟩

theorem Reads.trans {p q u : Pos} (hpq : Reads p q) (hqu : Reads q u) : Reads p u := by
  obtain ⟨l, hl, hb⟩ := hpq
  obtain ⟨m, hm, hb'⟩ := hqu
  exact ⟨l ++ m, by rw [hl, hm, List.append_assoc], by rw [hb', hb, List.reverse_append, List.append_assoc]⟩

theorem Reads.eq_or_lt (h : Reads p q) : q = p ∨ q.after.length < p.after.length := by
  obtain ⟨l, hl, hb⟩ := h
  cases l with
  | nil => left; cases p; cases q; simp_all
  | cons c l => right; rw [hl]; simp

theorem reads_times (hf : ∀ p q, q ∈ f p → Reads p q) (h : q ∈ times f n p) : Reads p q := by
  induction n generalizing p with
  | zero => rw [List.mem_singleton.1 h]; exact .refl p
  | succ n ih =>
    obtain ⟨u, hu, hq⟩ := List.mem_flatMap.1 h
    exact (hf p u hu).trans (ih hq)

theorem mem_upTo : q ∈ upTo f n p ↔ ∃ k ≤ n, q ∈ times f k p := by
  induction n generalizing p with
  | zero => simp [upTo, times]
  | succ n ih =>
    simp only [upTo, List.mem_cons, List.mem_flatMap, ih]
    constructor
    · rintro (rfl | ⟨u, hu, k, hk, hq⟩)
      · exact ⟨0, Nat.zero_le _, List.mem_singleton.2 rfl⟩
      · exact ⟨k + 1, Nat.succ_le_succ hk, List.mem_flatMap.2 ⟨u, hu, hq⟩⟩
    · rintro ⟨k, hk, hq⟩
      cases k with
      | zero => exact .inl (List.mem_singleton.1 hq)
      | succ k =>
        obtain ⟨u, hu, hq⟩ := List.mem_flatMap.1 hq
        exact .inr ⟨u, hu, k, Nat.le_of_succ_le_succ hk, hq⟩

/-- Rounds beyond the length of what is left add nothing. -/
theorem times_cut (hf : ∀ p q, q ∈ f p → Reads p q) {k : ℕ} (hn : p.after.length ≤ n)
    (h : q ∈ times f k p) : ∃ k' ≤ n, q ∈ times f k' p := by
  induction k generalizing p n with
  | zero => exact ⟨0, Nat.zero_le _, h⟩
  | succ k ih =>
    obtain ⟨u, hu, hq⟩ := List.mem_flatMap.1 h
    rcases (hf p u hu).eq_or_lt with rfl | hlt
    · exact ih hn hq
    · obtain ⟨n, rfl⟩ : ∃ m, n = m + 1 := ⟨n - 1, by omega⟩
      obtain ⟨k', hk', hq'⟩ := ih (n := n) (by omega) hq
      exact ⟨k' + 1, by omega, List.mem_flatMap.2 ⟨u, hu, hq'⟩⟩

theorem times_add {m : ℕ} : q ∈ times f (m + n) p ↔ ∃ u ∈ times f m p, q ∈ times f n u := by
  induction m generalizing p with
  | zero => simp [times]
  | succ m ih =>
    rw [Nat.succ_add]
    simp only [times, List.mem_flatMap, ih]
    constructor
    · rintro ⟨u, hu, v, hv, hq⟩; exact ⟨v, ⟨u, hu, hv⟩, hq⟩
    · rintro ⟨v, ⟨u, hu, hv⟩, hq⟩; exact ⟨u, hu, v, hv, hq⟩

theorem reads_run (h : q ∈ run r p) : Reads p q := by
  induction r generalizing p q with
  | set c =>
    obtain ⟨b, a⟩ := p
    cases a with
    | nil => cases h
    | cons x a =>
      simp only [run] at h
      split at h
      · rw [List.mem_singleton.1 h]; exact ⟨[x], rfl, rfl⟩
      · cases h
  | seq r s ihr ihs =>
    obtain ⟨u, hu, hq⟩ := List.mem_flatMap.1 h
    exact (ihr hu).trans (ihs hq)
  | rep lo hi r ih =>
    obtain ⟨u, hu, hq⟩ := List.mem_flatMap.1 h
    obtain ⟨k, -, hq⟩ := mem_upTo.1 hq
    exact (reads_times (fun _ _ => ih) hu).trans (reads_times (fun _ _ => ih) hq)
  | notAhead c =>
    simp only [run] at h
    split at h
    · cases h
    · rw [List.mem_singleton.1 h]; exact .refl p
  | notBehind c =>
    simp only [run] at h
    split at h
    · cases h
    · rw [List.mem_singleton.1 h]; exact .refl p
  | start =>
    simp only [run] at h
    split at h
    · rw [List.mem_singleton.1 h]; exact .refl p
    · cases h
  | end_ =>
    simp only [run] at h
    split at h
    · rw [List.mem_singleton.1 h]; exact .refl p
    · cases h

/-- The number of rounds is any number within the bounds. -/
theorem mem_run_rep {hi : Option ℕ} : q ∈ run (rep lo hi r) p ↔
    ∃ k, lo ≤ k ∧ (∀ n ∈ hi, k - lo ≤ n - lo) ∧ q ∈ times (run r) k p := by
  simp only [run, List.mem_flatMap, mem_upTo]
  constructor
  · rintro ⟨u, hu, k, hk, hq⟩
    refine ⟨lo + k, Nat.le_add_right _ _, ?_, times_add.2 ⟨u, hu, hq⟩⟩
    rintro n rfl
    simpa using hk
  · rintro ⟨k, hlo, hhi, hq⟩
    obtain ⟨k, rfl⟩ := Nat.exists_eq_add_of_le hlo
    obtain ⟨u, hu, hq⟩ := times_add.1 hq
    refine ⟨u, hu, ?_⟩
    cases hi with
    | none => exact times_cut (fun _ _ => reads_run) le_rfl hq
    | some n => exact ⟨k, by simpa using hhi n rfl, hq⟩

/-! ### What the constructors match -/

theorem spans_of_mem (h : q ∈ run r ⟨b, a⟩) : ∃ l, a = l ++ q.after ∧ Spans r b l q.after := by
  obtain ⟨l, ha, hb⟩ := reads_run h
  obtain ⟨before, after⟩ := q
  obtain rfl : before = l.reverse ++ b := hb
  refine ⟨l, ha, ?_⟩
  rw [Spans, ← ha]
  exact h

theorem isMatch_iff {t : String} : isMatch r t = true ↔ ∃ l a, t.toList = l ++ a ∧ Spans r [] l a := by
  rw [isMatch, decide_eq_true_iff, ne_eq, List.eq_nil_iff_forall_not_mem, not_forall_not]
  constructor
  · rintro ⟨q, hq⟩
    obtain ⟨l, ha, hl⟩ := spans_of_mem hq
    exact ⟨l, q.after, ha, hl⟩
  · rintro ⟨l, a, ht, hl⟩
    rw [ht]
    exact ⟨_, hl⟩

theorem split_of_reads {u : Pos} {b' : List Char} (hu : Reads ⟨b, l ++ a⟩ u) (hq : Reads u ⟨b', a⟩) :
    ∃ l₁ l₂, l = l₁ ++ l₂ ∧ u = ⟨l₁.reverse ++ b, l₂ ++ a⟩ := by
  obtain ⟨l₁, hl₁, hb⟩ := hu
  obtain ⟨l₂, hl₂, -⟩ := hq
  obtain ⟨before, after⟩ := u
  simp only at hl₁ hl₂ hb
  subst hl₂ hb
  rw [← List.append_assoc] at hl₁
  exact ⟨l₁, l₂, List.append_cancel_right hl₁, rfl⟩

theorem spans_set : Spans (set c) b l a ↔ ∃ x, l = [x] ∧ c x = true := by
  constructor
  · intro h
    obtain ⟨m, hm, hb⟩ := reads_run h
    obtain rfl : l = m := List.append_cancel_right hm
    cases l with
    | nil =>
      cases a with
      | nil => cases h
      | cons y a =>
        simp only [Spans, run, List.nil_append] at h
        split at h
        · have := congrArg Pos.after (List.mem_singleton.1 h)
          simp at this
        · cases h
    | cons x l =>
      simp only [Spans, run, List.cons_append] at h
      split at h
      · rename_i hx
        have := congrArg Pos.after (List.mem_singleton.1 h)
        obtain rfl : l = [] := by simpa using this
        exact ⟨x, rfl, hx⟩
      · cases h
  · rintro ⟨x, rfl, hx⟩
    simp [Spans, run, hx]

theorem spans_seq : Spans (seq r s) b l a ↔
    ∃ l₁ l₂, l = l₁ ++ l₂ ∧ Spans r b l₁ (l₂ ++ a) ∧ Spans s (l₁.reverse ++ b) l₂ a := by
  constructor
  · intro h
    obtain ⟨u, hu, hq⟩ := List.mem_flatMap.1 h
    obtain ⟨l₁, l₂, rfl, rfl⟩ := split_of_reads (reads_run hu) (reads_run hq)
    refine ⟨l₁, l₂, rfl, ?_, ?_⟩
    · rw [Spans, ← List.append_assoc]; exact hu
    · rw [Spans, ← List.append_assoc, ← List.reverse_append]; exact hq
  · rintro ⟨l₁, l₂, rfl, h₁, h₂⟩
    refine List.mem_flatMap.2 ⟨⟨l₁.reverse ++ b, l₂ ++ a⟩, ?_, ?_⟩
    · rw [List.append_assoc]; exact h₁
    · rw [List.reverse_append, List.append_assoc]; exact h₂

theorem mem_times : ⟨l.reverse ++ b, a⟩ ∈ times (run r) n ⟨b, l ++ a⟩ ↔
    ∃ ls : List (List Char), ls.length = n ∧ l = ls.flatten ∧ Rounds r b ls a := by
  induction n generalizing b l with
  | zero =>
    simp only [times, List.mem_singleton, List.length_eq_zero_iff, Pos.mk.injEq]
    constructor
    · rintro ⟨-, h⟩
      exact ⟨[], rfl, by simpa using h.symm, trivial⟩
    · rintro ⟨ls, rfl, rfl, -⟩; simp
  | succ n ih =>
    constructor
    · intro h
      obtain ⟨u, hu, hq⟩ := List.mem_flatMap.1 h
      obtain ⟨l₁, l₂, rfl, rfl⟩ := split_of_reads (reads_run hu) (reads_times (fun _ _ => reads_run) hq)
      rw [List.reverse_append, List.append_assoc] at hq
      obtain ⟨ls, rfl, rfl, hls⟩ := ih.1 hq
      refine ⟨l₁ :: ls, rfl, rfl, ?_, hls⟩
      rw [Spans, ← List.append_assoc]; exact hu
    · rintro ⟨ls, hlen, rfl, hls⟩
      cases ls with
      | nil => cases hlen
      | cons l₁ ls =>
        refine List.mem_flatMap.2 ⟨⟨l₁.reverse ++ b, ls.flatten ++ a⟩, ?_, ?_⟩
        · rw [List.flatten_cons, List.append_assoc]; exact hls.1
        · rw [List.flatten_cons, List.reverse_append, List.append_assoc]
          exact ih.2 ⟨ls, Nat.succ.inj hlen, rfl, hls.2⟩

theorem spans_rep {hi : Option ℕ} : Spans (rep lo hi r) b l a ↔
    ∃ ls : List (List Char), l = ls.flatten ∧ lo ≤ ls.length ∧ (∀ n ∈ hi, ls.length - lo ≤ n - lo) ∧
      Rounds r b ls a := by
  rw [Spans, mem_run_rep]
  constructor
  · rintro ⟨k, hlo, hhi, hq⟩
    obtain ⟨ls, rfl, hl, hls⟩ := mem_times.1 hq
    exact ⟨ls, hl, hlo, hhi, hls⟩
  · rintro ⟨ls, hl, hlo, hhi, hls⟩
    exact ⟨ls.length, hlo, hhi, mem_times.2 ⟨ls, rfl, hl, hls⟩⟩

theorem rounds_set {ls : List (List Char)} :
    Rounds (set c) b ls a ↔ ∃ l : List Char, ls = l.map (fun x => [x]) ∧ ∀ x ∈ l, c x = true := by
  induction ls generalizing b with
  | nil => exact ⟨fun _ => ⟨[], rfl, by simp⟩, fun _ => trivial⟩
  | cons m ls ih =>
    simp only [Rounds, spans_set, ih]
    constructor
    · rintro ⟨⟨x, rfl, hx⟩, l, rfl, hl⟩
      exact ⟨x :: l, rfl, by simpa using ⟨hx, hl⟩⟩
    · rintro ⟨l, hl, hc⟩
      cases l with
      | nil => cases hl
      | cons x l =>
        obtain ⟨rfl, rfl⟩ := List.cons.inj hl
        exact ⟨⟨x, rfl, hc x (by simp)⟩, l, rfl, fun y hy => hc y (by simp [hy])⟩

theorem spans_rep_set {hi : ℕ} (hle : lo ≤ hi) : Spans (rep lo (some hi) (set c)) b l a ↔
    lo ≤ l.length ∧ l.length ≤ hi ∧ ∀ x ∈ l, c x = true := by
  simp only [spans_rep, rounds_set, Option.mem_some_iff, forall_eq']
  have hflat : ∀ m : List Char, (m.map fun x => [x]).flatten = m := fun m => by
    rw [← List.flatMap_def, List.flatMap_singleton']
  constructor
  · rintro ⟨_, rfl, hlo, hhi, m, rfl, hm⟩
    rw [List.length_map] at hlo hhi
    rw [hflat]
    exact ⟨hlo, by omega, hm⟩
  · rintro ⟨hlo, hhi, hl⟩
    exact ⟨_, (hflat l).symm, by simpa using hlo, by simpa using Nat.sub_le_sub_right hhi lo, l, rfl, hl⟩

theorem not_any_head? : ¬ a.head?.any c = true ↔ ∀ x ∈ a.head?, c x = false := by
  cases a <;> simp

theorem spans_notAhead : Spans (notAhead c) b l a ↔ l = [] ∧ ∀ x ∈ a.head?, c x = false := by
  constructor
  · intro h
    simp only [Spans, run] at h
    split at h
    · cases h
    · rename_i hany
      have hl : l = [] := by simpa using (congrArg Pos.after (List.mem_singleton.1 h)).symm
      subst hl
      exact ⟨rfl, not_any_head?.1 hany⟩
  · rintro ⟨rfl, hc⟩
    simp [Spans, run, not_any_head?.2 hc]

theorem spans_notBehind : Spans (notBehind c) b l a ↔ l = [] ∧ ∀ x ∈ b.head?, c x = false := by
  constructor
  · intro h
    simp only [Spans, run] at h
    split at h
    · cases h
    · rename_i hany
      have hl : l = [] := by simpa using (congrArg Pos.after (List.mem_singleton.1 h)).symm
      exact ⟨hl, not_any_head?.1 hany⟩
  · rintro ⟨rfl, hc⟩
    simp [Spans, run, not_any_head?.2 hc]

theorem spans_start : Spans start b l a ↔ l = [] ∧ b = [] := by
  constructor
  · intro h
    simp only [Spans, run] at h
    split at h
    · rename_i hb
      exact ⟨by simpa using (congrArg Pos.after (List.mem_singleton.1 h)).symm, hb⟩
    · cases h
  · rintro ⟨rfl, rfl⟩
    simp [Spans, run]

theorem spans_end : Spans end_ b l a ↔ l = [] ∧ (a = [] ∨ a = ['\n']) := by
  constructor
  · intro h
    simp only [Spans, run] at h
    split at h
    · rename_i ha
      have hl : l = [] := by simpa using (congrArg Pos.after (List.mem_singleton.1 h)).symm
      subst hl
      exact ⟨rfl, ha⟩
    · cases h
  · rintro ⟨rfl, ha⟩
    simp [Spans, run, ha]

end Regex

end Lib
