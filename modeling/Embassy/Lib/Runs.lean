import Mathlib

/-!
# Runs of a transition system

A system is a partial step function `step : σ → α → Option σ`: the action `a` names the choice the
environment makes, `none` says that it is not enabled. `Reaches step ok` relates the ends of the
runs whose steps all meet the side condition `ok` on the state before the step and the action.
-/

namespace Lib

variable {σ α : Type*}

/-- One step meeting `ok`. -/
def Steps (step : σ → α → Option σ) (ok : σ → α → Prop) (s s' : σ) : Prop :=
  ∃ a, ok s a ∧ step s a = some s'

/-- The ends of a run whose steps all meet `ok`. -/
abbrev Reaches (step : σ → α → Option σ) (ok : σ → α → Prop) : σ → σ → Prop :=
  Relation.ReflTransGen (Steps step ok)

def anyAct (_ : σ) (_ : α) : Prop := True

def run (step : σ → α → Option σ) : σ → List α → Option σ
  | s, [] => some s
  | s, a :: as => (step s a).bind fun s' => run step s' as

variable {step : σ → α → Option σ} {ok : σ → α → Prop} {s s' : σ}

namespace Reaches

theorem snoc {s'' : σ} {a : α} (h : Reaches step ok s s') (hok : ok s' a) (ha : step s' a = some s'') :
    Reaches step ok s s'' :=
  Relation.ReflTransGen.tail h ⟨a, hok, ha⟩

theorem mono {ok' : σ → α → Prop} (h : Reaches step ok s s') (hok : ∀ s a, ok s a → ok' s a) :
    Reaches step ok' s s' := by
  induction h with
  | refl => exact .refl
  | tail _ hs ih => obtain ⟨a, ha, hs⟩ := hs; exact snoc ih (hok _ a ha) hs

/-- An invariant that every step keeps holds at the end of every run. -/
theorem invariant {I : σ → Prop} (h : Reaches step ok s s') (h0 : I s)
    (hI : ∀ s a s', I s → ok s a → step s a = some s' → I s') : I s' := by
  induction h with
  | refl => exact h0
  | tail _ hs ih => obtain ⟨a, ha, hs⟩ := hs; exact hI _ a _ ih ha hs

/-- The same for an invariant that only holds while `H` does, where `H` cannot become true again
after it failed. -/
theorem invariant_under {I H : σ → Prop} (h : Reaches step ok s s') (h0 : H s → I s)
    (hH : ∀ s a s', ok s a → step s a = some s' → H s' → H s)
    (hI : ∀ s a s', H s' → I s → ok s a → step s a = some s' → I s') : H s' → I s' :=
  h.invariant (I := fun s => H s → I s) h0 fun s a s' ih ha hs hs' =>
    hI s a s' hs' (ih (hH s a s' ha hs hs')) ha hs

end Reaches

@[simp] theorem run_nil (s : σ) : run step s [] = some s := rfl

@[simp] theorem run_cons (s : σ) (a : α) (as : List α) :
    run step s (a :: as) = (step s a).bind fun s' => run step s' as := rfl

theorem run_map {f : α → α} (hf : ∀ s a, step s (f a) = step s a) (s : σ) (as : List α) :
    run step s (as.map f) = run step s as := by
  induction as generalizing s with
  | nil => rfl
  | cons a as ih =>
    rw [List.map_cons, run, run, hf]
    exact congrArg (Option.bind (step s a)) (funext ih)

theorem run_append (s : σ) (as bs : List α) :
    run step s (as ++ bs) = (run step s as).bind fun s' => run step s' bs := by
  induction as generalizing s with
  | nil => rfl
  | cons a as ih => simp only [List.cons_append, run_cons, ih, Option.bind_assoc]

/-- What the actions show is what the last state shows, if every step shows what its action does. -/
theorem filterMap_of_run {β : Type*} (f : α → Option β) (obs : σ → List β)
    (hobs : ∀ s a s', step s a = some s' → obs s' = obs s ++ (f a).toList) {as : List α}
    (h : run step s as = some s') : obs s' = obs s ++ as.filterMap f := by
  induction as generalizing s with
  | nil => obtain rfl := Option.some.inj h; simp
  | cons a as ih =>
    obtain ⟨s₁, h₁, h⟩ := Option.bind_eq_some_iff.1 h
    rw [ih h, hobs s a s₁ h₁]
    cases hf : f a <;> simp [hf]

theorem exists_step_of_mem_run {as : List α} {a : α} (h : run step s as = some s') (ha : a ∈ as) :
    ∃ s₁ s₂, step s₁ a = some s₂ := by
  induction as generalizing s with
  | nil => cases ha
  | cons b as ih =>
    obtain ⟨s₁, h₁, h⟩ := Option.bind_eq_some_iff.1 h
    rcases List.mem_cons.1 ha with rfl | ha
    · exact ⟨s, s₁, h₁⟩
    · exact ih h ha

theorem reaches_of_run : ∀ {s s' : σ} {as : List α}, (∀ a ∈ as, ∀ s, ok s a) →
    run step s as = some s' → Reaches step ok s s'
  | s, s', [], _, h => by simp only [run, Option.some.injEq] at h; subst h; exact .refl
  | s, s', a :: as, hok, h => by
    obtain ⟨s₁, h₁, h⟩ := Option.bind_eq_some_iff.1 h
    exact .head ⟨a, hok a (by simp) s, h₁⟩ (reaches_of_run (fun b hb => hok b (by simp [hb])) h)

theorem exists_reaches_of_run (step : σ → α → Option σ) (ok : σ → α → Prop) (s : σ) (as : List α)
    (p : σ → Bool) (hok : ∀ a ∈ as, ∀ s, ok s a)
    (h : (run step s as).map p = some true) : ∃ s', Reaches step ok s s' ∧ p s' = true := by
  obtain ⟨s', hr, hp⟩ := Option.map_eq_some_iff.1 h
  exact ⟨s', reaches_of_run hok hr, hp⟩

/-- Run a list of actions as long as they meet `ok`. -/
def runUnder (step : σ → α → Option σ) (ok : σ → α → Prop) [∀ s a, Decidable (ok s a)] :
    σ → List α → Option σ
  | s, [] => some s
  | s, a :: as => if ok s a then (step s a).bind fun s' => runUnder step ok s' as else none

theorem reaches_of_runUnder [∀ s a, Decidable (ok s a)] {as : List α} (h : runUnder step ok s as = some s') :
    Reaches step ok s s' := by
  induction as generalizing s with
  | nil => obtain rfl := Option.some.inj h; exact .refl
  | cons a as ih =>
    rw [runUnder] at h
    split at h
    · rename_i hok
      obtain ⟨s₁, h₁, h⟩ := Option.bind_eq_some_iff.1 h
      exact .head ⟨a, hok, h₁⟩ (ih h)
    · cases h

end Lib
