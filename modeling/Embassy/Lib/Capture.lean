import Mathlib

/-!
# Regular expressions with named groups

A backtracking matcher: `step r k` goes on with `k` after each way to match `r`, in the order of
preference (the longer run of a class before the shorter, the option before its absence), up to the first
that succeeds. Where a run of a class `Stops` at a separator that `k` wants, only the whole run is matched.
In the other direction, `exists_of_…` take a match apart.
-/

namespace Lib

theorem append_cons_inj {α : Type*} {a b x y : List α} {sep : α} (ha : sep ∉ a) (hb : sep ∉ b)
    (h : a ++ sep :: x = b ++ sep :: y) : a = b ∧ x = y := by
  induction a generalizing b with
  | nil =>
    cases b with
    | nil => exact ⟨rfl, (List.cons.inj h).2⟩
    | cons d b => exact absurd (List.mem_cons_self ..) ((List.cons.inj h).1 ▸ hb)
  | cons c a ih =>
    cases b with
    | nil => exact absurd (List.mem_cons_self ..) ((List.cons.inj h).1 ▸ ha)
    | cons d b =>
      obtain ⟨rfl, htail⟩ := List.cons.inj h
      obtain ⟨rfl, hxy⟩ := ih (fun hc => ha (List.mem_cons_of_mem _ hc))
        (fun hd => hb (List.mem_cons_of_mem _ hd)) htail
      exact ⟨rfl, hxy⟩

/-- What the groups have matched, the last one first. -/
abbrev Captures : Type := List (String × List Char)

inductive Pattern
  | empty
  /-- One character of a class. -/
  | char (p : Char → Bool)
  /-- `p*` -/
  | star (p : Char → Bool)
  | seq (r s : Pattern)
  | group (name : String) (r : Pattern)
  /-- `(?:r)?` -/
  | opt (r : Pattern)

namespace Pattern

/-- `p+` -/
def plus (p : Char → Bool) : Pattern := .seq (.char p) (.star p)

/-- A text, and then `r`. -/
def lit (text : List Char) (r : Pattern) : Pattern := text.foldr (fun c r => .seq (.char (· = c)) r) r

/-- The longest run of the class after which `k` succeeds. -/
def greedy {R : Type} (p : Char → Bool) (k : List Char → Option R) : List Char → Option R
  | [] => k []
  | c :: cs => if p c then (greedy p k cs).or (k (c :: cs)) else k (c :: cs)

def step {R : Type} : Pattern → (Captures → List Char → Option R) → Captures → List Char → Option R
  | empty, k, caps, cs => k caps cs
  | char _, _, _, [] => none
  | char p, k, caps, c :: cs => if p c then k caps cs else none
  | star p, k, caps, cs => greedy p (k caps) cs
  | seq r s, k, caps, cs => step r (step s k) caps cs
  | group name r, k, caps, cs =>
    step r (fun caps rest => k ((name, cs.take (cs.length - rest.length)) :: caps) rest) caps cs
  | opt r, k, caps, cs => (step r k caps cs).or (k caps cs)

/-- `re.match`: the groups, by name. -/
def match? (r : Pattern) (text : List Char) : Option Captures := step r (fun caps _ => some caps) [] text

def names : Pattern → List String
  | empty | char _ | star _ => []
  | seq r s => names r ++ names s
  | group name r => name :: names r
  | opt r => names r

variable {R : Type} {p : Char → Bool} {k : Captures → List Char → Option R} {caps : Captures} {r s : Pattern}
  {a b cs tail text : List Char} {c sep : Char} {name : String} {x : R}

/-! ### Matching in one way -/

theorem step_lit (text : List Char) : step (lit text r) k caps (text ++ tail) = step r k caps tail := by
  induction text with
  | nil => rfl
  | cons c text ih =>
    change step (.seq (.char (· = c)) (lit text r)) k caps (c :: (text ++ tail)) = _
    simp only [step, decide_true, if_true, ih]

theorem step_lit_ne (h : c ≠ sep) : step (lit (sep :: text) r) k caps (c :: cs) = none := by
  change step (.seq (.char (· = sep)) (lit text r)) k caps (c :: cs) = none
  simp only [step, decide_eq_false h, Bool.false_eq_true, if_false]

theorem greedy_eq {k : List Char → Option R} (ha : ∀ c ∈ a, p c = true) (hb : greedy p k b = k b)
    (hk : ∀ s, s ≠ [] → s <:+ a → k (s ++ b) = none) : greedy p k (a ++ b) = k b := by
  induction a with
  | nil => exact hb
  | cons c a ih =>
    have hrest := ih (fun x hx => ha x (List.mem_cons_of_mem _ hx))
      fun s hs hsuf => hk s hs (hsuf.trans (List.suffix_cons c a))
    have hhere : k (c :: (a ++ b)) = none := hk (c :: a) (List.cons_ne_nil _ _) (List.suffix_refl _)
    rw [List.cons_append, greedy, if_pos (ha c (List.mem_cons_self ..)), hrest, hhere, Option.or_none]

/-- A run of the class ends here: the separator is not in the class, or it is not in the run and what
follows it ends the run. -/
def Stops (p : Char → Bool) (a : List Char) (sep : Char) (tail : List Char) : Prop :=
  (∀ c ∈ a, p c = true) ∧
    (p sep = false ∨ sep ∉ a ∧ ∃ c cs, tail = c :: cs ∧ p c = false ∧ c ≠ sep)

/-- What goes on fails unless the separator is next. -/
def Wants (sep : Char) (k : Captures → List Char → Option R) : Prop :=
  ∀ caps c cs, c ≠ sep → k caps (c :: cs) = none

theorem Stops.of_cons (h : Stops p (c :: a) sep tail) : Stops p a sep tail :=
  ⟨fun x hx => h.1 x (List.mem_cons_of_mem _ hx),
    h.2.imp id fun ⟨hsep, hover⟩ => ⟨fun hx => hsep (List.mem_cons_of_mem _ hx), hover⟩⟩

theorem wants_lit : Wants sep (step (lit (sep :: text) r) k) := fun _ _ _ h => step_lit_ne h

theorem greedy_run (h : Stops p a sep tail) (hk : Wants sep k) :
    greedy p (k caps) (a ++ sep :: tail) = k caps (sep :: tail) := by
  obtain ⟨ha, hend⟩ := h
  refine greedy_eq ha ?_ fun s hs hsuf => ?_
  · rcases hend with hsep | ⟨-, c, cs, rfl, hc, hne⟩
    · rw [greedy, hsep, if_neg Bool.false_ne_true]
    · rw [greedy, greedy, hc, if_neg Bool.false_ne_true, hk caps c cs hne, Option.none_or, ite_self]
  · obtain ⟨c, s, rfl⟩ := List.exists_cons_of_ne_nil hs
    have hc : c ∈ a := hsuf.mem (List.mem_cons_self ..)
    refine hk caps c _ ?_
    rintro rfl
    rcases hend with hsep | ⟨hsep, -⟩
    · rw [ha c hc] at hsep
      cases hsep
    · exact hsep hc

theorem step_star (h : Stops p a sep tail) (hk : Wants sep k) :
    step (.star p) k caps (a ++ sep :: tail) = k caps (sep :: tail) := greedy_run h hk

theorem step_plus (hne : a ≠ []) (h : Stops p a sep tail) (hk : Wants sep k) :
    step (plus p) k caps (a ++ sep :: tail) = k caps (sep :: tail) := by
  obtain ⟨c, a, rfl⟩ := List.exists_cons_of_ne_nil hne
  change (if p c = true then greedy p (k caps) (a ++ sep :: tail) else none) = _
  rw [if_pos (h.1 c (List.mem_cons_self ..)), greedy_run h.of_cons hk]

theorem take_matched (a b : List Char) : (a ++ b).take ((a ++ b).length - b.length) = a := by
  rw [List.length_append, Nat.add_sub_cancel, List.take_left']
  rfl

theorem step_group (hk : Wants sep k)
    (h : ∀ k : Captures → List Char → Option R, Wants sep k →
      step r k caps (a ++ sep :: tail) = k caps (sep :: tail)) :
    step (.group name r) k caps (a ++ sep :: tail) = k ((name, a) :: caps) (sep :: tail) := by
  refine (h (fun caps rest => k ((name, (a ++ sep :: tail).take ((a ++ sep :: tail).length - rest.length)) :: caps) rest)
    fun caps c cs hc => hk _ c cs hc).trans ?_
  rw [take_matched]

theorem step_part (text : List Char) {caps' : Captures}
    (h : step r (step (lit (sep :: text) s) k) caps (a ++ sep :: (text ++ tail)) =
      step (lit (sep :: text) s) k caps' (sep :: (text ++ tail))) :
    step (.seq r (lit (sep :: text) s)) k caps (a ++ sep :: (text ++ tail)) = step s k caps' tail :=
  h.trans (step_lit (sep :: text))

theorem step_opt_of_some (h : step r k caps cs = some x) : step (.opt r) k caps cs = some x := by
  rw [step, h, Option.some_or]

theorem step_opt_of_none (h : step r k caps cs = none) : step (.opt r) k caps cs = k caps cs := by
  rw [step, h, Option.none_or]

/-! ### What a match tells -/

theorem exists_of_step_char (h : step (.char p) k caps cs = some x) :
    ∃ c rest, cs = c :: rest ∧ p c = true ∧ k caps rest = some x := by
  cases cs with
  | nil => cases h
  | cons c rest =>
    rw [step] at h
    split_ifs at h with hc
    exact ⟨c, rest, rfl, hc, h⟩

theorem exists_of_greedy {k : List Char → Option R} (h : greedy p k cs = some x) :
    ∃ a rest, cs = a ++ rest ∧ (∀ c ∈ a, p c = true) ∧ k rest = some x := by
  induction cs with
  | nil => exact ⟨[], [], rfl, fun _ h => absurd h List.not_mem_nil, h⟩
  | cons c cs ih =>
    rw [greedy] at h
    split_ifs at h with hc
    · rcases Option.or_eq_some_iff.mp h with h | ⟨-, h⟩
      · obtain ⟨a, rest, rfl, ha, hk⟩ := ih h
        exact ⟨c :: a, rest, rfl, List.forall_mem_cons.mpr ⟨hc, ha⟩, hk⟩
      · exact ⟨[], c :: cs, rfl, fun _ h => absurd h List.not_mem_nil, h⟩
    · exact ⟨[], c :: cs, rfl, fun _ h => absurd h List.not_mem_nil, h⟩

theorem exists_of_step_plus (h : step (plus p) k caps cs = some x) :
    ∃ a rest, cs = a ++ rest ∧ (∀ c ∈ a, p c = true) ∧ k caps rest = some x := by
  obtain ⟨c, cs, rfl, hc, h⟩ := exists_of_step_char h
  obtain ⟨a, rest, rfl, ha, hk⟩ := exists_of_greedy h
  exact ⟨c :: a, rest, rfl, List.forall_mem_cons.mpr ⟨hc, ha⟩, hk⟩

theorem exists_of_step_lit (h : step (lit text r) k caps cs = some x) :
    ∃ rest, cs = text ++ rest ∧ step r k caps rest = some x := by
  induction text generalizing cs with
  | nil => exact ⟨cs, rfl, h⟩
  | cons c text ih =>
    obtain ⟨c', rest, rfl, hc, h⟩ := exists_of_step_char h
    obtain ⟨rest, rfl, hr⟩ := ih h
    obtain rfl := of_decide_eq_true hc
    exact ⟨rest, rfl, hr⟩

/-- A match only adds to what was captured, under the names of the pattern. -/
theorem exists_captures_of_step (h : step r k caps cs = some x) :
    ∃ new rest, k (new ++ caps) rest = some x ∧ ∀ g ∈ new, g.1 ∈ names r := by
  induction r generalizing k caps cs with
  | empty => exact ⟨[], cs, h, fun _ h => absurd h List.not_mem_nil⟩
  | char p =>
    obtain ⟨c, rest, -, -, h⟩ := exists_of_step_char h
    exact ⟨[], rest, h, fun _ h => absurd h List.not_mem_nil⟩
  | star p =>
    obtain ⟨a, rest, -, -, h⟩ := exists_of_greedy h
    exact ⟨[], rest, h, fun _ h => absurd h List.not_mem_nil⟩
  | seq r s ihr ihs =>
    obtain ⟨new, rest, h, hnew⟩ := ihr h
    obtain ⟨new', rest, h, hnew'⟩ := ihs h
    refine ⟨new' ++ new, rest, by rwa [List.append_assoc], fun g hg => ?_⟩
    rcases List.mem_append.mp hg with hg | hg
    · exact List.mem_append_right _ (hnew' g hg)
    · exact List.mem_append_left _ (hnew g hg)
  | group name r ih =>
    obtain ⟨new, rest, h, hnew⟩ := ih h
    refine ⟨_ :: new, rest, h, fun g hg => ?_⟩
    rcases List.mem_cons.mp hg with rfl | hg
    · exact List.mem_cons_self ..
    · exact List.mem_cons_of_mem _ (hnew g hg)
  | opt r ih =>
    rcases Option.or_eq_some_iff.mp h with h | ⟨-, h⟩
    · exact ih h
    · exact ⟨[], cs, h, fun _ h => absurd h List.not_mem_nil⟩

theorem lookup_append_cons {new : Captures} (h : ∀ g ∈ new, g.1 ≠ name) :
    (new ++ (name, a) :: caps).lookup name = some a := by
  induction new with
  | nil => exact List.lookup_cons_self
  | cons g new ih =>
    have hg : (name == g.1) = false := beq_eq_false_iff_ne.mpr (h g (List.mem_cons_self ..)).symm
    rw [List.cons_append, List.lookup, hg]
    exact ih fun g hg => h g (List.mem_cons_of_mem _ hg)

end Pattern

end Lib
