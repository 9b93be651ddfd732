import Mathlib

/-!
# Sliding-window logs

A log of times to which every new time is appended after the times older than a window are dropped. On
a clock that never runs backwards the log is the whole history, as far as it lies in the window
(`windowLog_concat`), so counting the log is counting the history. Where every hit brings a window of its
own, the log has the hits that no later one dropped (`hitLog_eq`).
-/

namespace Lib

variable {T : Type*} [AddCommGroup T] [LinearOrder T]

/-- The times no older than `window` at the time `now`. -/
def recent (window now : T) (times : List T) : List T := times.filter fun t => now - t < window

def hit (window now : T) (log : List T) : List T := recent window now log ++ [now]

def windowLog (window : T) (times : List T) : List T := times.foldl (fun log now => hit window now log) []

theorem windowLog_append_singleton (window now : T) (times : List T) :
    windowLog window (times ++ [now]) = hit window now (windowLog window times) :=
  List.foldl_concat ..

section
variable [IsOrderedAddMonoid T] {window now : T} {times : List T}

theorem recent_recent {later : T} (h : now ≤ later) (log : List T) :
    recent window later (recent window now log) = recent window later log := by
  unfold recent
  rw [List.filter_filter]
  refine List.filter_congr fun t _ => ?_
  have himp : later - t < window → now - t < window := lt_of_le_of_lt (sub_le_sub_right h t)
  by_cases hl : later - t < window <;> simp [hl, himp]

theorem recent_windowLog (hs : (times ++ [now]).Pairwise (· ≤ ·)) :
    recent window now (windowLog window times) = recent window now times := by
  induction times using List.reverseRecOn generalizing now with
  | nil => rfl
  | append_singleton times last ih =>
    obtain ⟨hs, -, hlast⟩ := List.pairwise_append.1 hs
    have hle : last ≤ now := hlast last (by simp) now (by simp)
    have happend : ∀ l : List T, recent window now (l ++ [last]) =
        recent window now l ++ recent window now [last] := fun l => List.filter_append ..
    rw [windowLog_append_singleton, hit, happend, happend, ih hs, recent_recent hle]

/-- The log after a hit: the recent history, and the hit. -/
theorem windowLog_concat (hs : (times ++ [now]).Pairwise (· ≤ ·)) :
    windowLog window (times ++ [now]) = recent window now times ++ [now] := by
  rw [windowLog_append_singleton, hit, recent_windowLog hs]

theorem length_windowLog_concat (hs : (times ++ [now]).Pairwise (· ≤ ·)) :
    (windowLog window (times ++ [now])).length = (recent window now times).length + 1 := by
  rw [windowLog_concat hs, List.length_append, List.length_singleton]

end

structure WindowHit (T : Type*) where
  window : T
  time : T

/-- The log after hits that each prune with a window of their own. -/
def hitLog (hits : List (WindowHit T)) : List T := hits.foldl (fun log h => hit h.window h.time log) []

/-- None of the later hits drops `h`. -/
def Stands (h : WindowHit T) (later : List (WindowHit T)) : Prop :=
  ∀ h' ∈ later, h'.time - h.time < h'.window

instance (h : WindowHit T) (later : List (WindowHit T)) : Decidable (Stands h later) :=
  inferInstanceAs (Decidable (∀ h' ∈ later, _))

/-- The hits that none of the later ones drops. -/
def standing : List (WindowHit T) → List (WindowHit T)
  | [] => []
  | h :: hits => if Stands h hits then h :: standing hits else standing hits

section
variable {h : WindowHit T} {hits : List (WindowHit T)}

theorem standing_concat : standing (hits ++ [h]) =
    (standing hits).filter (fun h' => h.time - h'.time < h.window) ++ [h] := by
  induction hits with
  | nil => simp [standing, Stands]
  | cons h' hits ih =>
    have hiff : Stands h' (hits ++ [h]) ↔ Stands h' hits ∧ h.time - h'.time < h.window := by
      simp [Stands, or_imp, forall_and]
    rw [List.cons_append, standing, standing, ih]
    by_cases hs : Stands h' hits <;> by_cases hw : h.time - h'.time < h.window <;> simp [hiff, hs, hw]

theorem hitLog_concat : hitLog (hits ++ [h]) = hit h.window h.time (hitLog hits) := by
  rw [hitLog, List.foldl_concat, ← hitLog]

theorem hitLog_eq (hits : List (WindowHit T)) : hitLog hits = (standing hits).map WindowHit.time := by
  induction hits using List.reverseRecOn with
  | nil => rfl
  | append_singleton hits h ih =>
    rw [hitLog_concat, standing_concat, ih, hit, recent, List.filter_map, List.map_append]
    rfl

theorem standing_sublist (hits : List (WindowHit T)) : (standing hits).Sublist hits := by
  induction hits with
  | nil => exact .slnil
  | cons h hits ih =>
    rw [standing]
    split
    · exact ih.cons_cons h
    · exact ih.cons h

/-- Hits that no later one is a window away from are all counted. -/
theorem length_filter_le_standing (hs : (hits.map WindowHit.time).Pairwise (· ≤ ·)) (p : WindowHit T → Bool)
    (hp : ∀ h ∈ hits, ∀ h' ∈ hits, p h → h.time ≤ h'.time → h'.time - h.time < h'.window) :
    (hits.filter p).length ≤ (standing hits).length := by
  induction hits with
  | nil => exact Nat.zero_le _
  | cons h hits ih =>
    obtain ⟨hfirst, hs⟩ := List.pairwise_cons.1 hs
    have ih := ih hs fun a ha b hb => hp a (List.mem_cons_of_mem _ ha) b (List.mem_cons_of_mem _ hb)
    rw [standing]
    by_cases hph : p h = true
    · have hstands : Stands h hits := fun h' hh' =>
        hp h (List.mem_cons_self ..) h' (List.mem_cons_of_mem _ hh') hph
          (hfirst _ (List.mem_map_of_mem hh'))
      rw [List.filter_cons_of_pos hph, if_pos hstands]
      exact Nat.succ_le_succ ih
    · rw [List.filter_cons_of_neg hph]
      split
      · exact ih.trans (Nat.le_succ _)
      · exact ih

end

end Lib
