import Mathlib

/-!
# Python byte strings

`find`, `split` and `int`, on lists of bytes.
-/

namespace Embassy

namespace PyBytes

/-- `bytes.find(sub)`; `none` is -1. -/
def find (sub : List UInt8) : List UInt8 → Option ℕ
  | [] => if sub = [] then some 0 else none
  | b :: bs => if sub.isPrefixOf (b :: bs) then some 0 else (find sub bs).map (· + 1)

/-- `bytes.split(sep, 1)[0]` -/
def splitFirst (sep bs : List UInt8) : List UInt8 :=
  match find sep bs with
  | some i => bs.take i
  | none => bs

/-- `bytes.split(sep, maxsplit)`, for a separator of one byte. -/
def split (sep : UInt8) : ℕ → List UInt8 → List (List UInt8)
  | 0, bs => [bs]
  | n + 1, bs =>
    if sep ∈ bs then bs.takeWhile (· ≠ sep) :: split sep n ((bs.dropWhile (· ≠ sep)).drop 1) else [bs]

/-- White space that `int` takes around a literal. -/
def isSpaceByte (b : UInt8) : Bool := 9 ≤ b.toNat ∧ b.toNat ≤ 13 ∨ b.toNat = 0x20

def digit? (b : UInt8) : Option ℕ := if 0x30 ≤ b.toNat ∧ b.toNat ≤ 0x39 then some (b.toNat - 0x30) else none

/-- Digits, and single underscores between them. -/
def digits? : List UInt8 → Option (List ℕ)
  | [] => none
  | [b] => (digit? b).map ([·])
  | b :: c :: rest => do
    let d ← digit? b
    let ds ← if c.toNat = 0x5F then digits? rest else digits? (c :: rest)
    return d :: ds

/-- The literal without its sign, and whether this is a minus. -/
def unsigned (bs : List UInt8) : Bool × List UInt8 :=
  if bs.head?.map UInt8.toNat = some 0x2D then (true, bs.drop 1)
  else if bs.head?.map UInt8.toNat = some 0x2B then (false, bs.drop 1)
  else (false, bs)

/-- `int(bs)`; `maxDigits` is `sys.get_int_max_str_digits()`, where 0 is no limit. -/
def int? (maxDigits : ℕ) (bs : List UInt8) : Option ℤ := do
  let (negative, literal) := unsigned ((bs.dropWhile isSpaceByte).rdropWhile isSpaceByte)
  let ds ← digits? literal
  if maxDigits ≠ 0 ∧ maxDigits < ds.length then none
  else
    let n : ℤ := ds.foldl (fun n d => 10 * n + d) 0
    return if negative then -n else n

example : ([[0x32, 0x30, 0x30], [0x2B, 0x37], [0x20, 0x2D, 0x31, 0x5F, 0x30, 0x09], [0x31, 0x5F], [0x2B, 0x20, 0x31],
    []].map fun bs => int? 4300 bs) = [some 200, some 7, some (-10), none, none, none] := by decide +kernel

variable {sub a bs : List UInt8} {b sep : UInt8}

theorem find_cons_of_not_start (h : ¬ sub <+: b :: bs) : find sub (b :: bs) = (find sub bs).map (· + 1) := by
  rw [find, if_neg fun hp => h (List.isPrefixOf_iff_prefix.mp hp)]

theorem find_of_start (h : sub <+: bs) : find sub bs = some 0 := by
  cases bs with
  | nil => rw [find, if_pos (List.prefix_nil.mp h)]
  | cons b bs => rw [find, if_pos (List.isPrefixOf_iff_prefix.mpr h)]

theorem exists_of_find {i : ℕ} (h : find sub bs = some i) : ∃ rest, bs = bs.take i ++ sub ++ rest := by
  induction bs generalizing i with
  | nil =>
    rw [find] at h
    split_ifs at h with hsub
    exact ⟨[], by rw [hsub, List.take_nil]; rfl⟩
  | cons b bs ih =>
    rw [find] at h
    split_ifs at h with hp
    · obtain rfl := Option.some.inj h
      obtain ⟨rest, hrest⟩ := List.isPrefixOf_iff_prefix.mp hp
      exact ⟨rest, hrest.symm⟩
    · obtain ⟨j, hj, rfl⟩ := Option.map_eq_some_iff.mp h
      obtain ⟨rest, hrest⟩ := ih hj
      exact ⟨rest, congrArg (b :: ·) hrest⟩

theorem find_eq_none_iff : find sub bs = none ↔ ¬ sub <:+: bs := by
  induction bs with
  | nil => simp [find]
  | cons b bs ih =>
    rw [find, List.infix_cons_iff, not_or, ← ih, ← List.isPrefixOf_iff_prefix]
    split_ifs with hp <;> simp [hp]

theorem not_infix_of_find {i : ℕ} (hsub : sub ≠ []) (h : find sub bs = some i) : ¬ sub <:+: bs.take i := by
  induction bs generalizing i with
  | nil =>
    rw [List.take_nil, List.infix_nil]
    exact hsub
  | cons b bs ih =>
    rw [find] at h
    split_ifs at h with hp
    · obtain rfl := Option.some.inj h
      rw [List.take_zero, List.infix_nil]
      exact hsub
    · obtain ⟨j, hj, rfl⟩ := Option.map_eq_some_iff.mp h
      rw [List.take_succ_cons, List.infix_cons_iff]
      rintro (hpre | hin)
      · exact hp (List.isPrefixOf_iff_prefix.mpr (hpre.trans (List.take_prefix (j + 1) (b :: bs))))
      · exact ih hj hin

theorem find_append_of_not_mem {c : UInt8} (h : c ∉ a) :
    find (c :: sub) (a ++ bs) = (find (c :: sub) bs).map (· + a.length) := by
  induction a with
  | nil => exact (Option.map_id' (x := find (c :: sub) bs)).symm
  | cons b a ih =>
    rw [List.mem_cons, not_or] at h
    have hno : ¬ c :: sub <+: b :: (a ++ bs) := fun hp => h.1 (List.cons_prefix_cons.mp hp).1
    rw [List.cons_append, find_cons_of_not_start hno, ih h.2, Option.map_map]
    rfl

theorem split_succ_append (n : ℕ) (h : sep ∉ a) : split sep (n + 1) (a ++ sep :: bs) = a :: split sep n bs := by
  have hall : ∀ b ∈ a, decide (b ≠ sep) = true := fun b hb => decide_eq_true fun heq => h (heq ▸ hb)
  rw [split, if_pos (by simp), List.takeWhile_append_of_pos hall, List.dropWhile_append_of_pos hall]
  simp

theorem split_of_not_mem (n : ℕ) (h : sep ∉ bs) : split sep n bs = [bs] := by
  cases n with
  | zero => rfl
  | succ n => rw [split, if_neg h]

end PyBytes

end Embassy
