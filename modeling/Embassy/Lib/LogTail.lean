import Embassy.Lib.KeyedCap
import Mathlib

/-!
# What is left of a pruned log

A log is sorted by time. `Tail time n cut l d`: `d` is what is left of the full log `l`, a suffix,
where an entry is missing only because it is older than `cut` or because at least `n` entries follow
it. Appending, age-pruning and capping keep this; an entry that is neither too old nor crowded out
is still there (`Tail.filter_eq`, `Tail.filter_eq_of_uncrowded`).
-/

namespace Lib

variable {α : Type*}

/-- `d` is what is left of `l` (see the module doc). -/
def Tail (time : α → ℤ) (n : ℕ) (cut : ℤ) (l d : List α) : Prop :=
  ∃ old, l = old ++ d ∧ ∀ a e b, old = a ++ e :: b → time e < cut ∨ n ≤ b.length + d.length

def Sorted (time : α → ℤ) (l : List α) : Prop := l.Pairwise fun a b => time a ≤ time b

namespace Tail
variable {time : α → ℤ} {n : ℕ} {cut : ℤ} {l d : List α}

theorem nil : Tail time n cut ([] : List α) [] := ⟨[], rfl, by simp⟩

theorem mono {cut' : ℤ} (h : Tail time n cut l d) (hc : cut ≤ cut') : Tail time n cut' l d := by
  obtain ⟨old, hl, hold⟩ := h
  exact ⟨old, hl, fun a e b hab => (hold a e b hab).imp_left fun hlt => lt_of_lt_of_le hlt hc⟩

theorem sorted (h : Tail time n cut l d) (hs : Sorted time l) : Sorted time d := by
  obtain ⟨old, rfl, -⟩ := h
  exact hs.sublist (List.sublist_append_right old d)

/-- The older part `d₁` of what is left goes, where each of its entries may. -/
theorem drop {d₁ d₂ : List α} (h : Tail time n cut l (d₁ ++ d₂))
    (hd : ∀ a e b, d₁ = a ++ e :: b → time e < cut ∨ n ≤ b.length + d₂.length) :
    Tail time n cut l d₂ := by
  obtain ⟨old, hl, hold⟩ := h
  refine ⟨old ++ d₁, by rw [hl, List.append_assoc], fun a e b hab => ?_⟩
  rcases List.append_eq_append_iff.1 hab with ⟨c, rfl, hc⟩ | ⟨c, rfl, hc⟩
  · exact hd c e b hc
  · cases c with
    | nil => exact hd [] e b hc.symm
    | cons e' c =>
      obtain ⟨rfl, rfl⟩ := List.cons.inj hc
      simpa [List.length_append, Nat.add_assoc] using hold a e c rfl

theorem append (h : Tail time n cut l d) (e : α) : Tail time n cut (l ++ [e]) (d ++ [e]) := by
  obtain ⟨old, rfl, hold⟩ := h
  refine ⟨old, by simp, fun a e' b hab => (hold a e' b hab).imp_right fun hn => ?_⟩
  rw [List.length_append]; omega

/-- Pruning a sorted log by age drops a prefix of entries older than the cut. -/
theorem exists_filter_ge (cut : ℤ) (hs : Sorted time l) : ∃ old, l = old ++ (l.filter fun e => cut ≤ time e) ∧
    ∀ e ∈ old, time e < cut := by
  induction l with
  | nil => exact ⟨[], by simp⟩
  | cons e l ih =>
    obtain ⟨he, hl⟩ := List.pairwise_cons.1 hs
    by_cases hc : cut ≤ time e
    · refine ⟨[], ?_, by simp⟩
      rw [List.nil_append, eq_comm, List.filter_eq_self]
      intro a ha
      rcases List.mem_cons.1 ha with rfl | ha
      · simpa using hc
      · simpa using hc.trans (he a ha)
    · obtain ⟨old, hold, hlt⟩ := ih hl
      refine ⟨e :: old, ?_, ?_⟩
      · simp only [hc, decide_false, Bool.false_eq_true, not_false_eq_true, List.filter_cons_of_neg,
          List.cons_append]
        rw [← hold]
      · intro a ha
        rcases List.mem_cons.1 ha with rfl | ha
        · exact lt_of_not_ge hc
        · exact hlt a ha

theorem prune (h : Tail time n cut l d) (hs : Sorted time l) :
    Tail time n cut l (d.filter fun e => cut ≤ time e) := by
  obtain ⟨old, hold, hlt⟩ := exists_filter_ge cut (h.sorted hs)
  rw [hold] at h
  exact h.drop fun a e b hab => .inl (hlt e (by simp [hab]))

theorem cap (h : Tail time n cut l d) : Tail time n cut l (d.rtake n) := by
  rw [← List.take_append_drop (d.length - n) d] at h
  refine h.drop fun a e b hab => .inr ?_
  have hlen := congrArg List.length hab
  simp only [List.length_take, List.length_append, List.length_cons] at hlen
  rw [List.length_drop]; omega

theorem modify {p : α → Bool} {f : α → α} (hf : ∀ e, time (f e) = time e) (h : Tail time n cut l d) :
    Tail time n cut (modifyNewest p f l) (modifyNewest p f d) := by
  obtain ⟨old, rfl, hold⟩ := h
  rw [modifyNewest_append]
  split
  · exact ⟨old, rfl, fun a e b hab => by rw [length_modifyNewest]; exact hold a e b hab⟩
  · rename_i hany
    have hnone : modifyNewest p f d = d := modifyNewest_of_forall_not fun e he => by
      by_contra hp
      exact hany (List.any_eq_true.2 ⟨e, he, by simpa using hp⟩)
    refine ⟨modifyNewest p f old, by rw [hnone], fun a e b hab => ?_⟩
    -- the entries of `old` before and after the rewriting have the same times
    have hmap := congrArg (List.map time) hab
    rw [map_modifyNewest hf, List.map_append, List.map_cons] at hmap
    obtain ⟨a', c, rfl, -, hc⟩ := List.map_eq_append_iff.1 hmap
    obtain ⟨e', b', rfl, he, hb⟩ := List.map_eq_cons_iff.1 hc
    have hlen : b'.length = b.length := by simpa using congrArg List.length hb
    rw [hnone, ← he, ← hlen]
    exact hold a' e' b' rfl

/-- Where what is left holds at most `n` entries, it has the same recent entries as the newest `n` of
the log. -/
theorem filter_eq (h : Tail time n cut l d) (hn : d.length ≤ n) {q : α → Bool}
    (hq : ∀ e, q e → cut ≤ time e) : d.filter q = (l.rtake n).filter q := by
  obtain ⟨old, rfl, hold⟩ := h
  have hsplit : (old ++ d).rtake n = old.drop ((old ++ d).length - n) ++ d := by
    rw [List.rtake, List.drop_append_of_le_length (by rw [List.length_append]; omega)]
  rw [hsplit, List.filter_append]
  refine (List.append_left_eq_self.2 (List.filter_eq_nil_iff.2 fun e he hqe => ?_)).symm
  obtain ⟨a, b, hab⟩ := List.append_of_mem he
  have hlen := congrArg List.length hab
  simp only [List.length_drop, List.length_append, List.length_cons] at hlen
  have hold' := hold (old.take ((old ++ d).length - n) ++ a) e b
    (by rw [List.append_assoc, ← hab, List.take_append_drop])
  rcases hold' with hlt | hge
  · exact absurd (hq e hqe) (not_le.2 hlt)
  · omega

theorem filter_eq_of_uncrowded (h : Tail time n cut l d) (hs : Sorted time l)
    (hn : (l.filter fun e => cut ≤ time e).length ≤ n) {q : α → Bool}
    (hq : ∀ e, q e → cut ≤ time e) : d.filter q = l.filter q := by
  obtain ⟨old, rfl, hold⟩ := h
  rw [List.filter_append]
  refine (List.append_left_eq_self.2 (List.filter_eq_nil_iff.2 fun e he hqe => ?_)).symm
  obtain ⟨a, b, rfl⟩ := List.append_of_mem he
  rcases hold a e b rfl with hlt | hge
  · exact absurd (hq e hqe) (not_le.2 hlt)
  · -- `e` and everything after it is recent
    have hrecent : ∀ x ∈ e :: (b ++ d), cut ≤ time x := by
      rw [List.append_assoc] at hs
      have hcons := (List.pairwise_append.1 hs).2.1
      intro x hx
      rcases List.mem_cons.1 hx with rfl | hx
      · exact hq x hqe
      · exact (hq e hqe).trans ((List.pairwise_cons.1 hcons).1 x hx)
    have hall : ((e :: (b ++ d)).filter fun x => cut ≤ time x) = e :: (b ++ d) :=
      List.filter_eq_self.2 fun x hx => by simpa using hrecent x hx
    rw [List.append_assoc, List.cons_append, List.filter_append, hall] at hn
    simp only [List.length_append, List.length_cons] at hn
    omega

end Tail

/-! ### The newest of the recent entries -/

section
variable {time : α → ℤ} {n : ℕ} {cut cut' : ℤ} {l : List α} {e : α}

/-- The newest `n` of the entries that are not older than `cut`. -/
def freshest (time : α → ℤ) (n : ℕ) (cut : ℤ) (l : List α) : List α :=
  (l.filter fun e => cut ≤ time e).rtake n

theorem rtake_append_rtake (l₁ l₂ : List α) : (l₁.rtake n ++ l₂).rtake n = (l₁ ++ l₂).rtake n := by
  simp only [List.rtake]
  rw [← List.drop_append_of_le_length (by omega), List.drop_drop]
  congr 1
  simp only [List.length_drop, List.length_append]
  omega

theorem Sorted.of_concat (h : Sorted time (l ++ [e])) : Sorted time l := (List.pairwise_append.1 h).1

theorem Sorted.old_of_last (h : Sorted time (l ++ [e])) (he : time e < cut) :
    ∀ x ∈ l ++ [e], time x < cut := by
  intro x hx
  rcases List.mem_append.1 hx with hx | hx
  · exact lt_of_le_of_lt ((List.pairwise_append.1 h).2.2 x hx e (by simp)) he
  · obtain rfl := List.mem_singleton.1 hx
    exact he

@[simp] theorem freshest_nil : freshest time n cut ([] : List α) = [] := by simp [freshest]

@[simp] theorem freshest_zero (l : List α) : freshest time 0 cut l = [] := by simp [freshest]

theorem freshest_concat (h : cut ≤ time e) (l : List α) :
    freshest time (n + 1) cut (l ++ [e]) = freshest time n cut l ++ [e] := by
  simp [freshest, h]

theorem freshest_eq_nil (h : ∀ x ∈ l, time x < cut) : freshest time n cut l = [] := by
  rw [freshest, List.filter_eq_nil_iff.2 fun x hx => by simp [h x hx], List.rtake_nil]

theorem Sorted.filter_rtake (h : Sorted time l) (cut : ℤ) :
    (l.rtake n).filter (fun e => cut ≤ time e) = freshest time n cut l := by
  induction l using List.reverseRecOn generalizing n with
  | nil => simp
  | append_singleton l e ih =>
    have hl := h.of_concat
    cases n with
    | zero => simp
    | succ n =>
      rw [List.rtake_concat_succ, List.filter_append]
      by_cases he : cut ≤ time e
      · rw [freshest_concat he, ← ih hl]
        simp [he]
      · have hold := h.old_of_last (not_le.1 he)
        rw [freshest_eq_nil hold, ih hl, freshest_eq_nil fun x hx => hold x (by simp [hx])]
        simp [he]

/-- Adding to what a prune left, and pruning again, is pruning the whole log. -/
theorem freshest_append (h : Sorted time l) (hcut : cut ≤ cut') (l' : List α) :
    freshest time n cut' (freshest time n cut l ++ l') = freshest time n cut' (l ++ l') := by
  have hsub : Sorted time (l.filter fun e => cut ≤ time e) := List.Pairwise.filter _ h
  have himp : (l.filter fun e => cut ≤ time e).filter (fun e => cut' ≤ time e) =
      l.filter fun e => cut' ≤ time e := by
    rw [List.filter_filter]
    refine List.filter_congr fun e _ => ?_
    by_cases he : cut' ≤ time e
    · simp [he, hcut.trans he]
    · simp [he]
  rw [freshest, freshest, List.filter_append, hsub.filter_rtake, freshest, rtake_append_rtake, himp,
    freshest, List.filter_append]

theorem freshest_modifyNewest {p : α → Bool} {f : α → α} (hf : ∀ e, time (f e) = time e)
    (h : Sorted time l) :
    freshest time n cut (modifyNewest p f l) = modifyNewest p f (freshest time n cut l) := by
  induction l using List.reverseRecOn generalizing n with
  | nil => simp
  | append_singleton l e ih =>
    have hl := h.of_concat
    cases n with
    | zero => simp
    | succ n =>
      by_cases he : cut ≤ time e
      · rw [freshest_concat he, modifyNewest_concat, modifyNewest_concat]
        split
        · rw [freshest_concat (by rwa [hf])]
        · rw [freshest_concat he, ih hl]
      · -- everything is too old, rewritten or not
        have hold := h.old_of_last (not_le.1 he)
        rw [freshest_eq_nil hold, modifyNewest_nil, freshest_eq_nil]
        intro x hx
        rcases mem_modifyNewest hx with hx | ⟨y, hy, -, rfl⟩
        · exact hold x hx
        · rw [hf]
          exact hold y hy

end

end Lib
