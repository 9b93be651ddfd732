import Embassy.PyValue

/-!
# Objects as dicts

Item assignment and deletion on the members of a decoded object, and what looking a name up finds after
them.
-/

namespace Embassy

namespace Json

/-- The members of `name` get the value `v`. -/
def replace (members : List (String × Json)) (name : String) (v : Json) : List (String × Json) :=
  members.map fun m => if m.1 = name then (name, v) else m

/-- `d[name] = v`: in the place of the name if it has one, else at the end. -/
def set (members : List (String × Json)) (name : String) (v : Json) : List (String × Json) :=
  if members.any fun m => m.1 = name then replace members name v else members ++ [(name, v)]

/-- `d.pop(name, None)` -/
def erase (members : List (String × Json)) (name : String) : List (String × Json) :=
  members.filter fun m => m.1 ≠ name

variable {members : List (String × Json)} {name n : String} {v : Json}

@[simp] theorem get?_nil (name : String) : get? [] name = none := rfl

@[simp] theorem get?_cons (k : String) (v : Json) (members : List (String × Json)) (name : String) :
    get? ((k, v) :: members) name = (get? members name).or (if k = name then some v else none) := by
  unfold get?
  rw [List.reverse_cons, List.find?_append]
  cases members.reverse.find? fun m => decide (m.1 = name) <;> by_cases hk : k = name <;> simp [hk]

theorem get?_append (members members' : List (String × Json)) (name : String) :
    get? (members ++ members') name = (get? members' name).or (get? members name) := by
  unfold get?
  rw [List.reverse_append, List.find?_append, Option.map_or]

theorem replace_cons (k : String) (x : Json) (members : List (String × Json)) (name : String) (v : Json) :
    replace ((k, x) :: members) name v = (k, if k = name then v else x) :: replace members name v := by
  by_cases hk : k = name <;> simp [replace, hk]

theorem get?_replace_of_ne (h : n ≠ name) : get? (replace members name v) n = get? members n := by
  induction members with
  | nil => rfl
  | cons m members ih =>
    obtain ⟨k, x⟩ := m
    rw [replace_cons, get?_cons, get?_cons, ih]
    by_cases hk : k = name
    · rw [if_neg fun heq => h (heq.symm.trans hk), if_neg fun heq => h (heq.symm.trans hk)]
    · rw [if_neg hk]

theorem get?_replace_self (h : ∃ m ∈ members, m.1 = name) : get? (replace members name v) name = some v := by
  induction members with
  | nil =>
    obtain ⟨m, hm, -⟩ := h
    cases hm
  | cons m members ih =>
    obtain ⟨k, x⟩ := m
    rw [replace_cons, get?_cons]
    by_cases hrest : ∃ m ∈ members, m.1 = name
    · rw [ih hrest]
      rfl
    · obtain ⟨m, hm, hname⟩ := h
      rcases List.mem_cons.1 hm with rfl | hm
      · have hnone : get? (replace members name v) name = none := by
          unfold get? replace
          rw [Option.map_eq_none_iff, List.find?_eq_none]
          intro m' hm'
          obtain ⟨m, hm, rfl⟩ := List.mem_map.1 (List.mem_reverse.1 hm')
          have hne : m.1 ≠ name := fun heq => hrest ⟨m, hm, heq⟩
          simp [hne]
        have hk : k = name := hname
        simp [hnone, hk]
      · exact absurd ⟨m, hm, hname⟩ hrest

theorem get?_set (members : List (String × Json)) (name n : String) (v : Json) :
    get? (set members name v) n = if n = name then some v else get? members n := by
  unfold set
  split <;> rename_i hany
  · split <;> rename_i hn
    · rw [hn]
      exact get?_replace_self (by simpa using hany)
    · exact get?_replace_of_ne hn
  · rw [get?_append]
    by_cases hn : n = name
    · simp [hn]
    · simp [hn, Ne.symm hn]

theorem get?_erase (members : List (String × Json)) (name n : String) :
    get? (erase members name) n = if n = name then none else get? members n := by
  induction members with
  | nil => simp [erase]
  | cons m members ih =>
    obtain ⟨k, x⟩ := m
    have hcons : erase ((k, x) :: members) name = (if k = name then [] else [(k, x)]) ++ erase members name := by
      by_cases hk : k = name <;> simp [erase, hk]
    rw [hcons, get?_append, ih, get?_cons]
    by_cases hn : n = name
    · subst hn
      by_cases hk : k = n <;> simp [hk]
    · by_cases hk : k = name
      · simp [hk, hn, Ne.symm hn]
      · simp [hk, hn]

end Json

end Embassy
