import Mathlib

/-!
# Dialogues

A program that sends requests and is answered: it is `done`, or it asks and goes on with the answer. `run`
gives it the answers one by one and keeps what was exchanged. `wp` is the weakest precondition for two
things at once: every request that is sent satisfies `P`, which sees what was exchanged before it, and the
end satisfies `post`.
-/

namespace Lib

/-- A program that asks `Q`, is answered `A`, and returns `R`. -/
inductive Dialogue (Q A R : Type*)
  | done (r : R)
  | ask (q : Q) (k : A → Dialogue Q A R)

namespace Dialogue

variable {Q A R S : Type*}

/-- The first program, then the second with what it returned. -/
def bind : Dialogue Q A R → (R → Dialogue Q A S) → Dialogue Q A S
  | done r, f => f r
  | ask q k, f => ask q fun a => (k a).bind f

/-- What is exchanged, and what is returned, with these answers in order. -/
def run : Dialogue Q A R → (ℕ → A) → List (Q × A) × R
  | done r, _ => ([], r)
  | ask q k, answers =>
    let (exchanged, r) := (k (answers 0)).run fun n => answers (n + 1)
    ((q, answers 0) :: exchanged, r)

/-- What is returned when the answers come from a server with a state. -/
def serve {σ : Type*} (server : σ → Q → σ × A) : σ → Dialogue Q A R → σ × R
  | s, done r => (s, r)
  | s, ask q k => serve server (server s q).1 (k (server s q).2)

/-- After the exchanges `before`, every request satisfies `P` and the end satisfies `post`. -/
def wp (P : List (Q × A) → Q → Prop) (post : List (Q × A) → R → Prop) :
    List (Q × A) → Dialogue Q A R → Prop
  | before, done r => post before r
  | before, ask q k => P before q ∧ ∀ a, wp P post (before ++ [(q, a)]) (k a)

variable {P : List (Q × A) → Q → Prop} {post post' : List (Q × A) → R → Prop} {before : List (Q × A)}

theorem wp_mono {d : Dialogue Q A R} (h : wp P post before d) (hpost : ∀ t r, post t r → post' t r) :
    wp P post' before d := by
  induction d generalizing before with
  | done r => exact hpost _ _ h
  | ask q k ih => exact ⟨h.1, fun a => ih a (h.2 a)⟩

theorem wp_bind {d : Dialogue Q A R} {f : R → Dialogue Q A S} {post : List (Q × A) → S → Prop}
    (h : wp P (fun t r => wp P post t (f r)) before d) : wp P post before (d.bind f) := by
  induction d generalizing before with
  | done r => exact h
  | ask q k ih => exact ⟨h.1, fun a => ih a (h.2 a)⟩

theorem wp.ends {d : Dialogue Q A R} (h : wp P post before d) (answers : ℕ → A) :
    post (before ++ (d.run answers).1) (d.run answers).2 := by
  induction d generalizing before answers with
  | done r =>
    rw [run, List.append_nil]
    exact h
  | ask q k ih =>
    have hrest := ih (answers 0) (h.2 (answers 0)) fun n => answers (n + 1)
    rwa [List.append_assoc] at hrest

theorem wp.sent {d : Dialogue Q A R} (h : wp P post before d) (answers : ℕ → A) {pre after : List (Q × A)}
    {q : Q} {a : A} (hsent : (d.run answers).1 = pre ++ (q, a) :: after) : P (before ++ pre) q := by
  induction d generalizing before answers pre with
  | done r => cases pre <;> cases hsent
  | ask q' k ih =>
    change (q', answers 0) :: ((k (answers 0)).run fun n => answers (n + 1)).1 = _ at hsent
    cases pre with
    | nil =>
      obtain rfl : q' = q := congrArg Prod.fst (List.cons.inj hsent).1
      rw [List.append_nil]
      exact h.1
    | cons x pre =>
      obtain ⟨rfl, hrest⟩ := List.cons.inj hsent
      have hp := ih (answers 0) (h.2 (answers 0)) (fun n => answers (n + 1)) hrest
      rwa [List.append_assoc] at hp

/-- Whatever is sent, what was exchanged before is a prefix of what is exchanged in the end. -/
theorem wp_prefix (d : Dialogue Q A R) (t : List (Q × A)) :
    wp (fun _ _ => True) (fun t' _ => t <+: t') t d := by
  induction d generalizing t with
  | done r => exact List.prefix_rfl
  | ask q k ih =>
    exact ⟨trivial, fun a => wp_mono (ih a _) fun _ _ h => (List.prefix_append ..).trans h⟩

theorem answer_of_run {d : Dialogue Q A R} {answers : ℕ → A} {pre after : List (Q × A)} {x : Q × A}
    (h : (d.run answers).1 = pre ++ x :: after) : x.2 = answers pre.length := by
  induction d generalizing answers pre with
  | done r => cases pre <;> cases h
  | ask q k ih =>
    change (q, answers 0) :: ((k (answers 0)).run fun n => answers (n + 1)).1 = _ at h
    cases pre with
    | nil =>
      obtain rfl := (List.cons.inj h).1
      rfl
    | cons y pre =>
      have hrest := ih (answers 0) (List.cons.inj h).2
      exact hrest

end Dialogue

end Lib
