import Mathlib

/-!
# Tables

Partial functions that are written at one key. What is found after a write was written or was there before
(`of_update`); a write at a free key, or over another entry, hides nothing. Of two lists of entries with keys,
the one that has no key twice and nothing the other lacks costs no more (`sum_le_of_keys`).
-/

namespace Lib

variable {α β : Type*} [DecidableEq α] {f : α → Option β} {a b : α} {x y : β} {v : Option β}

theorem of_update (h : Function.update f a (some x) b = some y) : b = a ∧ y = x ∨ b ≠ a ∧ f b = some y := by
  rw [Function.update_apply] at h
  split at h <;> rename_i hba
  · exact .inl ⟨hba, (Option.some.inj h).symm⟩
  · exact .inr ⟨hba, h⟩

theorem update_of_none (ha : f a = none) (hb : f b = some y) : Function.update f a v b = some y := by
  refine (Function.update_of_ne ?_ ..).trans hb
  rintro rfl
  cases ha.symm.trans hb

theorem update_of_some_ne (ha : f a = some x) (hne : y ≠ x) (hb : f b = some y) :
    Function.update f a v b = some y := by
  refine (Function.update_of_ne ?_ ..).trans hb
  rintro rfl
  exact hne (Option.some.inj (hb.symm.trans ha))

/-- Distinct entries that are all entries of the other list do not cost more. -/
theorem sum_le_of_keys {α β κ : Type*} {l : List α} {l' : List β} (key : α → κ) (key' : β → κ) {cost : α → ℤ}
    {cost' : β → ℤ} (hnodup : (l.map key).Nodup) (hpos : ∀ y ∈ l', 0 ≤ cost' y)
    (hsub : ∀ x ∈ l, ∃ y ∈ l', key' y = key x ∧ cost' y = cost x) : (l.map cost).sum ≤ (l'.map cost').sum := by
  have hpairs : (l.map fun x => (key x, cost x)).Nodup := by
    refine List.Nodup.of_map Prod.fst ?_
    rw [List.map_map]
    exact hnodup
  have hsubset : (l.map fun x => (key x, cost x)) ⊆ l'.map fun y => (key' y, cost' y) := by
    intro k hk
    obtain ⟨x, hx, rfl⟩ := List.mem_map.1 hk
    obtain ⟨y, hy, hkey, hcost⟩ := hsub x hx
    exact List.mem_map.2 ⟨y, hy, by rw [hkey, hcost]⟩
  obtain ⟨m, hperm, hm⟩ := List.subperm_of_subset hpairs hsubset
  have hle : (m.map Prod.snd).sum ≤ ((l'.map fun y => (key' y, cost' y)).map Prod.snd).sum := by
    refine (hm.map Prod.snd).sum_le_sum fun n hn => ?_
    rw [List.map_map] at hn
    obtain ⟨y, hy, rfl⟩ := List.mem_map.1 hn
    exact hpos y hy
  rw [(hperm.map Prod.snd).sum_eq, List.map_map, List.map_map] at hle
  exact hle

end Lib
