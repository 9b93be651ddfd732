import Mathlib

/-!
# Insertion-ordered dictionaries

`Dict κ α` lists its entries in the order their keys were first set; the keys are distinct by
construction. Setting a present key rewrites its entry in place, setting a fresh key appends, so an
entry never moves. Every operation has one equation for `get?` and, where the order matters, one
for `entries`.
-/

namespace Lib

/-- A finite map with distinct keys, in insertion order. -/
structure Dict (κ α : Type*) where
  entries : List (κ × α)
  nodup : (entries.map Prod.fst).Nodup

namespace Dict
variable {κ α : Type*}

@[ext] theorem ext {d d' : Dict κ α} (h : d.entries = d'.entries) : d = d' := by
  cases d; cases d'; subst h; rfl

def empty : Dict κ α := ⟨[], List.nodup_nil⟩

def keys (d : Dict κ α) : List κ := d.entries.map Prod.fst

def values (d : Dict κ α) : List α := d.entries.map Prod.snd

/-- Keep the entries satisfying `p`. -/
def filter (p : κ → α → Bool) (d : Dict κ α) : Dict κ α :=
  ⟨d.entries.filter fun e => p e.1 e.2, d.nodup.sublist (List.filter_sublist.map _)⟩

/-- Drop the `n` oldest entries. -/
def dropOldest (n : ℕ) (d : Dict κ α) : Dict κ α :=
  ⟨d.entries.drop n, d.nodup.sublist ((List.drop_sublist n _).map _)⟩

variable [DecidableEq κ]

/-- The value at `k` (`d.get(k)`). -/
def get? (d : Dict κ α) (k : κ) : Option α :=
  (d.entries.find? fun e => e.1 = k).map Prod.snd

theorem keys_map_update (l : List (κ × α)) (k : κ) (v : α) :
    (l.map fun e => if e.1 = k then (k, v) else e).map Prod.fst = l.map Prod.fst := by
  rw [List.map_map]
  refine List.map_congr_left fun e _ => ?_
  by_cases h : e.1 = k <;> simp [h]

/-- Set `k` to `v` (`d[k] = v`): in place when `k` is present, else at the end. -/
def set (d : Dict κ α) (k : κ) (v : α) : Dict κ α :=
  if h : k ∈ d.keys then
    ⟨d.entries.map fun e => if e.1 = k then (k, v) else e, by rw [keys_map_update]; exact d.nodup⟩
  else
    ⟨d.entries ++ [(k, v)], by
      rw [List.map_append]
      exact List.nodup_append.2 ⟨d.nodup, by simp, by
        intro a ha b hb; simp at hb; subst hb; exact fun e => h (e ▸ ha)⟩⟩

/-- Remove `k` (`del d[k]`, `d.pop(k, None)`). -/
def erase (d : Dict κ α) (k : κ) : Dict κ α := d.filter fun k' _ => k' ≠ k

theorem mem_entries_iff {d : Dict κ α} {k : κ} {v : α} : (k, v) ∈ d.entries ↔ d.get? k = some v := by
  obtain ⟨l, hnd⟩ := d
  induction l with
  | nil => simp [get?]
  | cons e l ih =>
    obtain ⟨k', v'⟩ := e
    obtain ⟨hk', hl⟩ := List.nodup_cons.1 hnd
    have ih := ih hl
    simp only [get?, List.mem_cons, Prod.mk.injEq, List.find?_cons] at ih ⊢
    by_cases hk : k' = k
    · subst hk
      have : (k', v) ∉ l := fun h => hk' (List.mem_map.2 ⟨_, h, rfl⟩)
      simp [this, eq_comm]
    · simp [hk, Ne.symm hk, ih]

theorem mem_keys_iff {d : Dict κ α} {k : κ} : k ∈ d.keys ↔ ∃ v, d.get? k = some v := by
  simp only [keys, List.mem_map, Prod.exists]
  constructor
  · rintro ⟨_, v, h, rfl⟩; exact ⟨v, mem_entries_iff.1 h⟩
  · rintro ⟨v, h⟩; exact ⟨k, v, mem_entries_iff.2 h, rfl⟩

theorem get?_eq_none_iff {d : Dict κ α} {k : κ} : d.get? k = none ↔ k ∉ d.keys := by
  rw [mem_keys_iff, Option.eq_none_iff_forall_ne_some]; simp

theorem mem_values_iff {d : Dict κ α} {v : α} : v ∈ d.values ↔ ∃ k, d.get? k = some v := by
  simp only [values, List.mem_map, Prod.exists, exists_eq_right]
  exact exists_congr fun k => mem_entries_iff

theorem get?_ext_iff {d : Dict κ α} {k : κ} {o : Option α} :
    d.get? k = o ↔ ∀ v, (k, v) ∈ d.entries ↔ o = some v := by
  constructor
  · rintro rfl v; exact mem_entries_iff
  · intro h; exact Option.ext fun v => by rw [← mem_entries_iff]; exact h v

@[simp] theorem get?_empty (k : κ) : (empty : Dict κ α).get? k = none := rfl

theorem get?_filter (d : Dict κ α) (p : κ → α → Bool) (k : κ) :
    (d.filter p).get? k = (d.get? k).filter (p k) := by
  rw [get?_ext_iff]
  intro v
  simp [filter, mem_entries_iff, Option.filter_eq_some_iff]

theorem get?_erase (d : Dict κ α) (k k' : κ) :
    (d.erase k).get? k' = if k' = k then none else d.get? k' := by
  rw [erase, get?_filter]
  by_cases h : k' = k <;> cases d.get? k' <;> simp [h]

theorem get?_set (d : Dict κ α) (k k' : κ) (v : α) :
    (d.set k v).get? k' = if k' = k then some v else d.get? k' := by
  rw [get?_ext_iff]
  intro w
  unfold set
  split
  · rename_i hk
    simp only [List.mem_map, Prod.exists]
    by_cases h : k' = k
    · subst h
      obtain ⟨u, hu⟩ := mem_keys_iff.1 hk
      simp only [if_true, Option.some.injEq]
      constructor
      · rintro ⟨a, b, _, hab⟩; split at hab <;> simp_all
      · rintro rfl; exact ⟨k', u, mem_entries_iff.2 hu, by simp⟩
    · simp only [h, if_false, ← mem_entries_iff]
      constructor
      · rintro ⟨a, b, hab, he⟩
        split at he
        · exact absurd (congrArg Prod.fst he).symm h
        · exact he ▸ hab
      · exact fun hm => ⟨k', w, hm, by simp [h]⟩
  · rename_i hk
    simp only [List.mem_append, List.mem_singleton, Prod.mk.injEq]
    by_cases h : k' = k
    · subst h
      have : (k', w) ∉ d.entries := fun hm => hk (List.mem_map.2 ⟨_, hm, rfl⟩)
      simp [this, eq_comm]
    · simp [h, mem_entries_iff]

@[simp] theorem get?_set_self (d : Dict κ α) (k : κ) (v : α) : (d.set k v).get? k = some v := by
  simp [get?_set]

@[simp] theorem get?_erase_self (d : Dict κ α) (k : κ) : (d.erase k).get? k = none := by
  simp [get?_erase]

theorem get?_set_of_ne (d : Dict κ α) {k k' : κ} (v : α) (h : k' ≠ k) :
    (d.set k v).get? k' = d.get? k' := by simp [get?_set, h]

theorem get?_erase_of_ne (d : Dict κ α) {k k' : κ} (h : k' ≠ k) :
    (d.erase k).get? k' = d.get? k' := by simp [get?_erase, h]

theorem entries_set_of_mem (d : Dict κ α) {k : κ} (v : α) (h : k ∈ d.keys) :
    (d.set k v).entries = d.entries.map fun e => if e.1 = k then (k, v) else e := by
  simp [set, h]

theorem entries_set_of_not_mem (d : Dict κ α) {k : κ} (v : α) (h : k ∉ d.keys) :
    (d.set k v).entries = d.entries ++ [(k, v)] := by
  simp [set, h]

theorem entries_erase (d : Dict κ α) (k : κ) :
    (d.erase k).entries = d.entries.filter fun e => e.1 ≠ k := rfl

/-- `dict` of the entries, as they come. -/
def ofList (l : List (κ × α)) : Dict κ α := l.foldl (fun d e => d.set e.1 e.2) empty

theorem ofList_concat (l : List (κ × α)) (e : κ × α) : ofList (l ++ [e]) = (ofList l).set e.1 e.2 :=
  List.foldl_concat ..

theorem get?_ofList (l : List (κ × α)) (k : κ) :
    (ofList l).get? k = (l.reverse.find? fun e => e.1 = k).map Prod.snd := by
  induction l using List.reverseRecOn with
  | nil => rfl
  | append_singleton l e ih =>
    rw [ofList_concat, get?_set, List.reverse_append, List.reverse_singleton, List.singleton_append,
      List.find?_cons, ih]
    by_cases hk : e.1 = k
    · rw [if_pos hk.symm]
      simp [hk]
    · rw [if_neg (Ne.symm hk)]
      simp [hk]

theorem entries_ofList {l : List (κ × α)} (h : (l.map Prod.fst).Nodup) : (ofList l).entries = l := by
  induction l using List.reverseRecOn with
  | nil => rfl
  | append_singleton l e ih =>
    rw [List.map_append, List.nodup_append] at h
    obtain ⟨hl, -, hdisj⟩ := h
    have hnew : e.1 ∉ (ofList l).keys := by
      rw [keys, ih hl]
      exact fun hmem => hdisj _ hmem _ (List.mem_singleton_self _) rfl
    rw [ofList_concat, entries_set_of_not_mem _ _ hnew, ih hl]

@[simp] theorem ofList_entries (d : Dict κ α) : ofList d.entries = d := ext (entries_ofList d.nodup)

theorem mem_of_mem_ofList {l : List (κ × α)} {e : κ × α} (h : e ∈ (ofList l).entries) : e ∈ l := by
  have hget := mem_entries_iff.1 (show (e.1, e.2) ∈ (ofList l).entries from h)
  rw [get?_ofList] at hget
  obtain ⟨e', hfind, hsnd⟩ := Option.map_eq_some_iff.1 hget
  have hfst : e'.1 = e.1 := by simpa using List.find?_some hfind
  have heq : e' = e := Prod.ext hfst hsnd
  exact heq ▸ List.mem_reverse.1 (List.mem_of_find?_eq_some hfind)

end Dict

end Lib
