import Embassy.Lib.Dict
import Mathlib

/-!
# Logs capped per key

A log lists entries oldest first. `capPerKey key n` walks it from the newest entry, counting the
entries of each key, and keeps an entry while the count of its key is at most `n`; seen through one
key this is "the last `n` entries" (`filter_capPerKey`), whatever the other keys do.
`modifyNewest p f` rewrites the newest entry satisfying `p` and nothing else.
-/

namespace Lib

variable {α κ : Type*}

section Cap
variable [DecidableEq κ]

/-- The walk of `capPerKey`: `l` is newest first, `cnt` counts the entries seen of each key. -/
def capLoop (key : α → κ) (n : ℕ) : List α → (κ → ℕ) → List α
  | [], _ => []
  | e :: l, cnt =>
    let cnt' := Function.update cnt (key e) (cnt (key e) + 1)
    if cnt' (key e) ≤ n then e :: capLoop key n l cnt' else capLoop key n l cnt'

/-- Keep the newest `n` entries of each key. -/
def capPerKey (key : α → κ) (n : ℕ) (l : List α) : List α :=
  (capLoop key n l.reverse fun _ => 0).reverse

variable {key : α → κ} {n : ℕ}

theorem capLoop_sublist (l : List α) (cnt : κ → ℕ) : (capLoop key n l cnt).Sublist l := by
  induction l generalizing cnt with
  | nil => exact .slnil
  | cons e l ih =>
    simp only [capLoop]
    split
    · exact (ih _).cons_cons e
    · exact (ih _).cons e

theorem filter_capLoop (k : κ) (l : List α) (cnt : κ → ℕ) :
    (capLoop key n l cnt).filter (fun e => key e = k) =
      (l.filter fun e => key e = k).take (n - cnt k) := by
  induction l generalizing cnt with
  | nil => simp [capLoop]
  | cons e l ih =>
    simp only [capLoop, Function.update_self]
    by_cases hk : key e = k
    · subst hk
      by_cases hn : cnt (key e) + 1 ≤ n
      · have hsub : n - cnt (key e) = (n - (cnt (key e) + 1)) + 1 := by omega
        simp [hn, ih, hsub]
      · have hsub : n - (cnt (key e) + 1) = 0 := by omega
        have hsub' : n - cnt (key e) = 0 := by omega
        simp [hn, ih, hsub, hsub']
    · split <;> simp [hk, ih, Function.update_of_ne (Ne.symm hk)]

theorem capPerKey_sublist (l : List α) : (capPerKey key n l).Sublist l := by
  simpa [capPerKey] using (@capLoop_sublist _ _ _ key n l.reverse _).reverse

theorem filter_capPerKey (k : κ) (l : List α) :
    (capPerKey key n l).filter (fun e => key e = k) = (l.filter fun e => key e = k).rtake n := by
  rw [capPerKey, List.filter_reverse, filter_capLoop, List.filter_reverse, List.rtake_eq_reverse_take_reverse]
  simp

/-- The newest `n` of a list keep an entry that fewer than `n` are newer than, ... -/
theorem rtake_split {l₂ : List α} (h : l₂.length < n) (l₁ : List α) (e : α) :
    (l₁ ++ e :: l₂).rtake n = l₁.rtake (n - l₂.length - 1) ++ e :: l₂ := by
  simp only [List.rtake, List.length_append, List.length_cons]
  rw [List.drop_append_of_le_length (by omega)]
  congr 2
  omega

/-- ... and drop every other. -/
theorem rtake_append_of_le {l₂ : List α} (h : n ≤ l₂.length) (l₁ : List α) :
    (l₁ ++ l₂).rtake n = l₂.rtake n := by
  simp only [List.rtake, List.length_append]
  rw [List.drop_append, List.drop_of_length_le (by omega), List.nil_append]
  congr 1
  omega

/-- `capPerKey` on a dictionary, by a key of the values. -/
def Dict.capPerKey {ι : Type*} (key : α → κ) (n : ℕ) (d : Dict ι α) : Dict ι α :=
  ⟨Lib.capPerKey (fun e => key e.2) n d.entries, d.nodup.sublist ((capPerKey_sublist _).map _)⟩

end Cap

/-! ### Rewriting the newest match -/

/-- Rewrite the first entry satisfying `p`. -/
def modifyFirst (p : α → Bool) (f : α → α) : List α → List α
  | [] => []
  | e :: l => if p e then f e :: l else e :: modifyFirst p f l

/-- Rewrite the newest (last) entry satisfying `p`. -/
def modifyNewest (p : α → Bool) (f : α → α) (l : List α) : List α :=
  (modifyFirst p f l.reverse).reverse

variable {p : α → Bool} {f : α → α}

theorem modifyNewest_concat (l : List α) (e : α) :
    modifyNewest p f (l ++ [e]) = if p e then l ++ [f e] else modifyNewest p f l ++ [e] := by
  rw [modifyNewest, List.reverse_append, List.reverse_singleton, List.singleton_append, modifyFirst]
  split <;> simp [modifyNewest]

@[simp] theorem modifyNewest_nil : modifyNewest p f [] = [] := rfl

theorem modifyNewest_of_forall_not {l : List α} (h : ∀ e ∈ l, p e = false) : modifyNewest p f l = l := by
  induction l using List.reverseRecOn with
  | nil => rfl
  | append_singleton l e ih =>
    rw [modifyNewest_concat, if_neg (by simp [h e]), ih fun e he => h e (by simp [he])]

theorem modifyNewest_append (l₁ l₂ : List α) :
    modifyNewest p f (l₁ ++ l₂) =
      if l₂.any p then l₁ ++ modifyNewest p f l₂ else modifyNewest p f l₁ ++ l₂ := by
  induction l₂ using List.reverseRecOn with
  | nil => simp
  | append_singleton l e ih =>
    rw [← List.append_assoc, modifyNewest_concat, modifyNewest_concat]
    by_cases he : p e
    · simp [he]
    · simp only [he, if_false, Bool.false_eq_true, ih, List.any_append, List.any_cons, List.any_nil,
        Bool.or_false]
      split <;> simp

theorem length_modifyNewest (l : List α) : (modifyNewest p f l).length = l.length := by
  induction l using List.reverseRecOn with
  | nil => rfl
  | append_singleton l e ih => rw [modifyNewest_concat]; split <;> simp [ih]

theorem mem_modifyNewest {l : List α} {e : α} (h : e ∈ modifyNewest p f l) : e ∈ l ∨ ∃ e' ∈ l, p e' ∧ e = f e' := by
  induction l using List.reverseRecOn with
  | nil => exact .inl h
  | append_singleton l x ih =>
    rw [modifyNewest_concat] at h
    split at h
    · rcases List.mem_append.1 h with h | h
      · exact .inl (by simp [h])
      · exact .inr ⟨x, by simp, ‹_›, by simpa using h⟩
    · rcases List.mem_append.1 h with h | h
      · rcases ih h with h | ⟨e', he', hp⟩
        · exact .inl (by simp [h])
        · exact .inr ⟨e', by simp [he'], hp⟩
      · exact .inl (by simp at h; simp [h])

theorem map_modifyNewest {β : Type*} {g : α → β} (hg : ∀ e, g (f e) = g e) (l : List α) :
    (modifyNewest p f l).map g = l.map g := by
  induction l using List.reverseRecOn with
  | nil => rfl
  | append_singleton l e ih => rw [modifyNewest_concat]; split <;> simp [hg, ih]

/-- Where every match in `l` satisfies `q` and the rewrite keeps `q`, rewriting commutes with
selecting `q`. -/
theorem filter_modifyNewest_of_imp {q : α → Bool} {l : List α} (hpq : ∀ e ∈ l, p e → q e)
    (hf : ∀ e, q (f e) = q e) : (modifyNewest p f l).filter q = modifyNewest p f (l.filter q) := by
  induction l using List.reverseRecOn with
  | nil => rfl
  | append_singleton l e ih =>
    have ih := ih fun e he => hpq e (by simp [he])
    rw [modifyNewest_concat]
    by_cases he : p e
    · simp [he, hpq e (by simp) he, hf, modifyNewest_concat]
    · by_cases hq : q e <;> simp [he, hq, ih, modifyNewest_concat]

/-- Where no match in `l` satisfies `q` and the rewrite keeps `q`, rewriting does not show. -/
theorem filter_modifyNewest_of_not {q : α → Bool} {l : List α} (hpq : ∀ e ∈ l, p e → q e = false)
    (hf : ∀ e, q (f e) = q e) : (modifyNewest p f l).filter q = l.filter q := by
  induction l using List.reverseRecOn with
  | nil => rfl
  | append_singleton l e ih =>
    rw [modifyNewest_concat]
    by_cases he : p e
    · simp [he, hpq e (by simp) he, hf]
    · simp [he, ih fun e he => hpq e (by simp [he])]

theorem modifyNewest_split {l₁ l₂ : List α} {e : α} (he : p e) (h₂ : ∀ x ∈ l₂, p x = false) :
    modifyNewest p f (l₁ ++ e :: l₂) = l₁ ++ f e :: l₂ := by
  have hany : l₂.any p = false := by simpa using h₂
  rw [List.append_cons, modifyNewest_append, hany, if_neg Bool.false_ne_true, modifyNewest_concat,
    if_pos he]
  simp

theorem exists_split_of_filter {l m : List α} {e : α} (h : l.filter p = m ++ [e]) :
    ∃ l₁ l₂, l = l₁ ++ e :: l₂ ∧ p e ∧ l₁.filter p = m ∧ ∀ x ∈ l₂, p x = false := by
  obtain ⟨l₁, l₂, rfl, rfl, h₂⟩ := List.filter_eq_append_iff.1 h
  obtain ⟨m₁, m₂, rfl, hm₁, he, hm₂⟩ := List.filter_eq_cons_iff.1 h₂
  refine ⟨l₁ ++ m₁, m₂, by simp, he, ?_, by simpa using hm₂⟩
  rw [List.filter_append, List.filter_eq_nil_iff.2 hm₁, List.append_nil]

end Lib
