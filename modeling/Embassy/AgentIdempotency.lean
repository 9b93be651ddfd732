import Embassy.AgentActions

/-!
# At most one execution per action id

The per-action lock only excludes two requests for one action while they were handed the same lock
object. `LockKept` says just that: a request that makes a new lock object for an action without a
stored result finds no other request holding on to an older one. Under it `Inv` is inductive and the
agent is idempotent; without it the clean-up in `_store_result`, run by any *other* action, drops
the lock of an action in flight and its retry executes again.
-/

namespace Embassy
open Lib

namespace Agent

/-- A new lock object is made only when nobody refers to an older one of the same unstored action. -/
def LockKept (s : State) (act : Act) : Prop :=
  ∀ i a, act = .obtain i → s.requests i = some ⟨a, .arrived⟩ → s.actionLocks.get? a = none →
    s.results.get? a = none → ∀ j pc, s.requests j = some ⟨a, pc⟩ → pc.lock? = none

namespace Pc

/-- Past the look-up that found nothing, before the store. -/
def unstored : Pc → Prop
  | deciding _ | executing _ | decided _ _ => True
  | _ => False

/-- Past the call of `channels.execute` or its refusal, before the store. -/
def ran : Pc → Prop
  | executing _ | decided _ _ => True
  | _ => False

def body? : Pc → Option ActionBody
  | leaving _ b | answered b => some b
  | _ => none

theorem lock?_of_held? {pc : Pc} {l : LockId} (h : pc.held? = some l) : pc.lock? = some l := by
  cases pc <;> simp_all [held?, lock?]

theorem exists_held_of_unstored {pc : Pc} (h : pc.unstored) : ∃ l, pc.held? = some l := by
  cases pc <;> simp_all [held?, unstored]

theorem unstored_of_ran {pc : Pc} (h : pc.ran) : pc.unstored := by
  cases pc <;> simp_all [ran, unstored]

end Pc

/-- What holds at every step of a run that keeps its locks. -/
structure Inv (s : State) : Prop where
  lock_lt : ∀ i a pc l, s.requests i = some ⟨a, pc⟩ → pc.lock? = some l → l < s.nextLock
  table_lt : ∀ a l, s.actionLocks.get? a = some l → l < s.nextLock
  held : ∀ i a pc l, s.requests i = some ⟨a, pc⟩ → pc.held? = some l → s.held l = true
  excl : ∀ i j a b pc pc' l, s.requests i = some ⟨a, pc⟩ → s.requests j = some ⟨b, pc'⟩ →
    pc.held? = some l → pc'.held? = some l → i = j
  /-- The requests of one unstored action share their lock object ... -/
  shared : ∀ i j a pc pc' l l', s.results.get? a = none → s.requests i = some ⟨a, pc⟩ →
    s.requests j = some ⟨a, pc'⟩ → pc.lock? = some l → pc'.lock? = some l' → l = l'
  /-- ... with the table, as far as it has one. -/
  table : ∀ i a pc l l', s.results.get? a = none → s.requests i = some ⟨a, pc⟩ →
    pc.lock? = some l → s.actionLocks.get? a = some l' → l = l'
  unstored : ∀ i a pc, s.requests i = some ⟨a, pc⟩ → pc.unstored → s.results.get? a = none
  body : ∀ i a pc b, s.requests i = some ⟨a, pc⟩ → pc.body? = some b → s.results.get? a = some b
  once : ∀ a, s.executions.count a ≤ 1
  ran : ∀ a, a ∈ s.executions → s.results.get? a = none →
    ∃ i pc, s.requests i = some ⟨a, pc⟩ ∧ pc.ran
  stored : ∀ a, a ∈ s.results.keys → a ∈ s.stored

theorem goto_requests (s : State) (i : ℕ) (a : String) (pc : Pc) (j : ℕ) :
    (s.goto i a pc).requests j = if j = i then some ⟨a, pc⟩ else s.requests j := by
  simp [State.goto, Function.update_apply]

theorem goto_cases {s : State} {i j : ℕ} {a b : String} {pc q : Pc}
    (h : (s.goto i a pc).requests j = some ⟨b, q⟩) :
    (j = i ∧ b = a ∧ q = pc) ∨ (j ≠ i ∧ s.requests j = some ⟨b, q⟩) := by
  rw [goto_requests] at h
  by_cases hji : j = i
  · simp only [hji, if_true, Option.some.injEq, Request.mk.injEq] at h
    exact .inl ⟨hji, h.1.symm, h.2.symm⟩
  · exact .inr ⟨hji, by simpa [hji] using h⟩

namespace Inv
variable {s : State} {i : ℕ} {a : String} {pc pc' : Pc}

theorem init : Inv State.init := by
  constructor <;> simp [State.init, Dict.mem_keys_iff]

/-- Two requests of one action cannot both be between the look-up and the store. -/
theorem eq_of_unstored (h : Inv s) {j : ℕ} (hi : s.requests i = some ⟨a, pc⟩)
    (hj : s.requests j = some ⟨a, pc'⟩) (hpc : pc.unstored) (hpc' : pc'.unstored) : i = j := by
  obtain ⟨l, hl⟩ := Pc.exists_held_of_unstored hpc
  obtain ⟨l', hl'⟩ := Pc.exists_held_of_unstored hpc'
  have hll : l = l' := h.shared i j a pc pc' l l' (h.unstored i a pc hi hpc) hi hj
    (Pc.lock?_of_held? hl) (Pc.lock?_of_held? hl')
  exact h.excl i j a a pc pc' l hi hj hl (hll ▸ hl')

/-- A request moves on without touching the tables: it keeps at most the lock object it has, and
what it holds afterwards was free or its own. -/
theorem move (h : Inv s) (hi : s.requests i = some ⟨a, pc⟩) (held' : LockId → Bool)
    (hlock : ∀ l, pc'.lock? = some l → pc.lock? = some l)
    (hheld : ∀ l, pc'.held? = some l → held' l = true ∧ (pc.held? = some l ∨ s.held l = false))
    (hkeep : ∀ l, s.held l = true → held' l = true ∨ pc.held? = some l)
    (hun : pc'.unstored → s.results.get? a = none)
    (hbody : ∀ b, pc'.body? = some b → s.results.get? a = some b)
    (hran : pc.ran → pc'.ran) : Inv ({ s with held := held' }.goto i a pc') := by
  refine ⟨?_, h.table_lt, ?_, ?_, ?_, ?_, ?_, ?_, h.once, ?_, h.stored⟩
  · intro j b q l hj hl
    rcases goto_cases hj with ⟨rfl, rfl, rfl⟩ | ⟨-, hj⟩
    · exact h.lock_lt j b pc l hi (hlock l hl)
    · exact h.lock_lt j b q l hj hl
  · intro j b q l hj hl
    rcases goto_cases hj with ⟨rfl, rfl, rfl⟩ | ⟨hji, hj⟩
    · exact (hheld l hl).1
    · rcases hkeep l (h.held j b q l hj hl) with hk | hk
      · exact hk
      · exact absurd (h.excl j i b a q pc l hj hi hl hk) hji
  · intro j k b c q q' l hj hk hl hl'
    rcases goto_cases hj with ⟨rfl, rfl, rfl⟩ | ⟨hji, hj'⟩ <;>
      rcases goto_cases hk with ⟨rfl, rfl, rfl⟩ | ⟨hki, hk'⟩
    · rfl
    · rcases (hheld l hl).2 with hown | hfree
      · exact h.excl j k b c pc q' l hi hk' hown hl'
      · rw [h.held k c q' l hk' hl'] at hfree; cases hfree
    · rcases (hheld l hl').2 with hown | hfree
      · exact h.excl j k b c q pc l hj' hi hl hown
      · rw [h.held j b q l hj' hl] at hfree; cases hfree
    · exact h.excl j k b c q q' l hj' hk' hl hl'
  · intro j k b q q' l l' hb hj hk hl hl'
    rcases goto_cases hj with ⟨rfl, rfl, rfl⟩ | ⟨hji, hj'⟩ <;>
      rcases goto_cases hk with ⟨rfl, hbk, rfl⟩ | ⟨hki, hk'⟩
    · rw [hl] at hl'; exact Option.some.inj hl'
    · exact h.shared j k b pc q' l l' hb hi hk' (hlock l hl) hl'
    · exact h.shared j k b q pc l l' hb hj' (hbk ▸ hi) hl (hlock l' hl')
    · exact h.shared j k b q q' l l' hb hj' hk' hl hl'
  · intro j b q l l' hb hj hl ht
    rcases goto_cases hj with ⟨rfl, rfl, rfl⟩ | ⟨-, hj⟩
    · exact h.table j b pc l l' hb hi (hlock l hl) ht
    · exact h.table j b q l l' hb hj hl ht
  · intro j b q hj hq
    rcases goto_cases hj with ⟨rfl, rfl, rfl⟩ | ⟨-, hj⟩
    · exact hun hq
    · exact h.unstored j b q hj hq
  · intro j b q body hj hq
    rcases goto_cases hj with ⟨rfl, rfl, rfl⟩ | ⟨-, hj⟩
    · exact hbody body hq
    · exact h.body j b q body hj hq
  · intro b hb hres
    obtain ⟨j, q, hj, hq⟩ := h.ran b hb hres
    by_cases hji : j = i
    · subst hji
      obtain ⟨rfl, rfl⟩ : a = b ∧ pc = q := by simpa using hi.symm.trans hj
      exact ⟨j, pc', by simp [goto_requests], hran hq⟩
    · exact ⟨j, q, by simp [goto_requests, hji, hj], hq⟩

theorem arrive (h : Inv s) (hi : s.requests i = none) (hpc : pc' = .arrived ∨ ∃ n, pc' = .refused n) :
    Inv (s.goto i a pc') := by
  have hlock : pc'.lock? = none := by rcases hpc with rfl | ⟨n, rfl⟩ <;> rfl
  have hheld : pc'.held? = none := by rcases hpc with rfl | ⟨n, rfl⟩ <;> rfl
  have hbody : pc'.body? = none := by rcases hpc with rfl | ⟨n, rfl⟩ <;> rfl
  have hun : ¬ pc'.unstored := by rcases hpc with rfl | ⟨n, rfl⟩ <;> exact id
  refine ⟨?_, h.table_lt, ?_, ?_, ?_, ?_, ?_, ?_, h.once, ?_, h.stored⟩
  · intro j b q l hj hl
    rcases goto_cases hj with ⟨-, -, rfl⟩ | ⟨-, hj⟩
    · simp [hlock] at hl
    · exact h.lock_lt j b q l hj hl
  · intro j b q l hj hl
    rcases goto_cases hj with ⟨-, -, rfl⟩ | ⟨-, hj⟩
    · simp [hheld] at hl
    · exact h.held j b q l hj hl
  · intro j k b c q q' l hj hk hl hl'
    rcases goto_cases hj with ⟨-, -, rfl⟩ | ⟨-, hj⟩
    · simp [hheld] at hl
    rcases goto_cases hk with ⟨-, -, rfl⟩ | ⟨-, hk⟩
    · simp [hheld] at hl'
    exact h.excl j k b c q q' l hj hk hl hl'
  · intro j k b q q' l l' hb hj hk hl hl'
    rcases goto_cases hj with ⟨-, -, rfl⟩ | ⟨-, hj⟩
    · simp [hlock] at hl
    rcases goto_cases hk with ⟨-, -, rfl⟩ | ⟨-, hk⟩
    · simp [hlock] at hl'
    exact h.shared j k b q q' l l' hb hj hk hl hl'
  · intro j b q l l' hb hj hl ht
    rcases goto_cases hj with ⟨-, -, rfl⟩ | ⟨-, hj⟩
    · simp [hlock] at hl
    · exact h.table j b q l l' hb hj hl ht
  · intro j b q hj hq
    rcases goto_cases hj with ⟨-, -, rfl⟩ | ⟨-, hj⟩
    · exact absurd hq hun
    · exact h.unstored j b q hj hq
  · intro j b q body hj hq
    rcases goto_cases hj with ⟨-, -, rfl⟩ | ⟨-, hj⟩
    · simp [hbody] at hq
    · exact h.body j b q body hj hq
  · intro b hb hres
    obtain ⟨j, q, hj, hq⟩ := h.ran b hb hres
    have hji : j ≠ i := by rintro rfl; rw [hi] at hj; cases hj
    exact ⟨j, q, by simp [goto_requests, hji, hj], hq⟩

/-- Handing out the lock object `l`, which the table then has for `a`: it is shared with everyone
who refers to a lock of the still unstored action. -/
theorem hand (h : Inv s) (hi : s.requests i = some ⟨a, .arrived⟩) {l : LockId} {n : ℕ}
    {t : Dict String LockId} (hn : s.nextLock ≤ n) (hl : l < n)
    (ht : ∀ b l', t.get? b = some l' → s.actionLocks.get? b = some l' ∨ b = a ∧ l' = l)
    (hta : t.get? a = some l)
    (hshare : s.results.get? a = none → ∀ j pc l', s.requests j = some ⟨a, pc⟩ →
      pc.lock? = some l' → l' = l) :
    Inv ({ s with actionLocks := t, nextLock := n }.goto i a (.obtained l)) := by
  refine ⟨?_, ?_, ?_, ?_, ?_, ?_, ?_, ?_, h.once, ?_, h.stored⟩
  · intro j b q l' hj hl'
    rcases goto_cases hj with ⟨-, -, rfl⟩ | ⟨-, hj⟩
    · obtain rfl : l = l' := Option.some.inj hl'
      exact hl
    · exact lt_of_lt_of_le (h.lock_lt j b q l' hj hl') hn
  · intro b l' hb
    rcases ht b l' hb with hb | ⟨-, rfl⟩
    · exact lt_of_lt_of_le (h.table_lt b l' hb) hn
    · exact hl
  · intro j b q l' hj hl'
    rcases goto_cases hj with ⟨-, -, rfl⟩ | ⟨-, hj⟩
    · cases hl'
    · exact h.held j b q l' hj hl'
  · intro j k b c q q' l' hj hk hl hl'
    rcases goto_cases hj with ⟨-, -, rfl⟩ | ⟨-, hj⟩
    · cases hl
    rcases goto_cases hk with ⟨-, -, rfl⟩ | ⟨-, hk⟩
    · cases hl'
    exact h.excl j k b c q q' l' hj hk hl hl'
  · intro j k b q q' l₁ l₂ hb hj hk h₁ h₂
    rcases goto_cases hj with ⟨-, rfl, rfl⟩ | ⟨-, hj'⟩ <;>
      rcases goto_cases hk with ⟨-, hbk, hqk⟩ | ⟨-, hk'⟩
    · subst hqk; exact Option.some.inj (h₁.symm.trans h₂)
    · obtain rfl : l = l₁ := Option.some.inj h₁
      exact (hshare hb k q' l₂ hk' h₂).symm
    · subst hbk hqk
      obtain rfl : l = l₂ := Option.some.inj h₂
      exact hshare hb j q l₁ hj' h₁
    · exact h.shared j k b q q' l₁ l₂ hb hj' hk' h₁ h₂
  · intro j b q l₁ l₂ hb hj h₁ h₂
    rcases goto_cases hj with ⟨-, rfl, rfl⟩ | ⟨-, hj'⟩
    · exact Option.some.inj (h₁.symm.trans (hta.symm.trans h₂))
    · rcases ht b l₂ h₂ with h₂' | ⟨rfl, rfl⟩
      · exact h.table j b q l₁ l₂ hb hj' h₁ h₂'
      · exact hshare hb j q l₁ hj' h₁
  · intro j b q hj hq
    rcases goto_cases hj with ⟨-, -, rfl⟩ | ⟨-, hj⟩
    · exact absurd hq id
    · exact h.unstored j b q hj hq
  · intro j b q body hj hq
    rcases goto_cases hj with ⟨-, -, rfl⟩ | ⟨-, hj⟩
    · cases hq
    · exact h.body j b q body hj hq
  · intro b hb hres
    obtain ⟨j, q, hj, hq⟩ := h.ran b hb hres
    have hji : j ≠ i := by
      rintro rfl
      obtain ⟨rfl, rfl⟩ : a = b ∧ Pc.arrived = q := by simpa using hi.symm.trans hj
      exact hq
    exact ⟨j, q, by simp [goto_requests, hji, hj], hq⟩

theorem obtain (h : Inv s) (hi : s.requests i = some ⟨a, .arrived⟩) (hk : LockKept s (.obtain i)) :
    Inv ((s.actionLock a).2.goto i a (.obtained (s.actionLock a).1)) := by
  unfold State.actionLock
  split
  · rename_i l hl
    exact h.hand hi (l := l) (n := s.nextLock) (t := s.actionLocks) le_rfl (h.table_lt a l hl)
      (fun b l' hb => .inl hb) hl
      fun hres j pc l' hj hl' => h.table j a pc l' l hres hj hl' hl
  · rename_i hl
    refine h.hand hi (Nat.le_succ _) (Nat.lt_succ_self _) (fun b l' hb => ?_)
      (Dict.get?_set_self ..) fun hres j pc l' hj hl' => ?_
    · rw [Dict.get?_set] at hb
      split at hb
      · exact .inr ⟨‹_›, (Option.some.inj hb).symm⟩
      · exact .inl hb
    · rw [hk i a rfl hi hl hres j pc hj] at hl'; cases hl'

/-- The call of `channels.execute`: nobody called it for this action before. -/
theorem execute (h : Inv s) {l : LockId} (hi : s.requests i = some ⟨a, .deciding l⟩) :
    Inv ({ s with executions := s.executions ++ [a] }.goto i a (.executing l)) := by
  have hres : s.results.get? a = none := h.unstored i a _ hi trivial
  have hnew : a ∉ s.executions := by
    intro ha
    obtain ⟨j, pc, hj, hpc⟩ := h.ran a ha hres
    obtain rfl := h.eq_of_unstored hi hj trivial (Pc.unstored_of_ran hpc)
    obtain rfl : Pc.deciding l = pc := by simpa using hi.symm.trans hj
    exact hpc
  have hm : Inv ({ s with held := s.held }.goto i a (.executing l)) := h.move hi s.held (fun _ h => h)
    (fun l' hl' => ⟨h.held i a _ l' hi hl', .inl hl'⟩) (fun _ h => .inl h) (fun _ => hres)
    (fun _ hb => by cases hb) fun _ => trivial
  refine ⟨hm.lock_lt, hm.table_lt, hm.held, hm.excl, hm.shared, hm.table, hm.unstored, hm.body, ?_, ?_,
    hm.stored⟩
  · intro b
    show (s.executions ++ [a]).count b ≤ 1
    rw [List.count_append, List.count_singleton]
    have hb := h.once b
    by_cases hab : a = b
    · subst hab; simp [List.count_eq_zero.2 hnew]
    · simpa [hab] using hb
  · intro b hb hresb
    rcases List.mem_append.1 hb with hb | hb
    · exact hm.ran b hb hresb
    · obtain rfl : b = a := by simpa using hb
      exact ⟨i, .executing l, by simp [goto_requests], trivial⟩

end Inv

/-- `_store_result` evicts nothing while fewer than `RESULT_MAP_MAX` actions were ever stored. -/
theorem storeResult_results {s : State} (h : Inv s) {resultMapMax : ℕ} {a : String} {body : ActionBody}
    (hmax : (insert a s.stored).card < resultMapMax) :
    (s.storeResult resultMapMax a body).results = s.results.set a body := by
  have hsub : (s.results.set a body).keys.toFinset ⊆ insert a s.stored := by
    intro b hb
    rw [List.mem_toFinset, Dict.mem_keys_iff] at hb
    obtain ⟨v, hv⟩ := hb
    rw [Dict.get?_set] at hv
    split at hv
    · exact Finset.mem_insert.2 (.inl ‹_›)
    · exact Finset.mem_insert_of_mem (h.stored b (Dict.mem_keys_iff.2 ⟨v, hv⟩))
  have hlen : (s.results.set a body).entries.length ≤ (insert a s.stored).card := by
    refine le_trans (le_of_eq ?_) (Finset.card_le_card hsub)
    rw [Dict.keys, List.toFinset_card_of_nodup (s.results.set a body).nodup, List.length_map]
  unfold State.storeResult
  simp only
  rw [if_neg (by omega)]

namespace Inv
variable {s : State} {i : ℕ} {a : String}

/-- `_store_result`: the action leaves the unstored ones; every other action may lose its entry in
the lock table but no result. -/
theorem store (h : Inv s) {l : LockId} {body : ActionBody} {resultMapMax : ℕ}
    (hi : s.requests i = some ⟨a, .decided l body⟩) (hmax : (insert a s.stored).card < resultMapMax) :
    Inv ((s.storeResult resultMapMax a body).goto i a (.leaving l body)) := by
  have hres : s.results.get? a = none := h.unstored i a _ hi trivial
  have hr : ∀ b, (s.storeResult resultMapMax a body).results.get? b =
      if b = a then some body else s.results.get? b := by
    intro b; rw [storeResult_results h hmax, Dict.get?_set]
  have ht : ∀ b l', (s.storeResult resultMapMax a body).actionLocks.get? b = some l' →
      s.actionLocks.get? b = some l' := by
    intro b l' hb
    simp only [State.storeResult, Dict.get?_filter, Option.filter_eq_some_iff] at hb
    exact hb.1
  have hold : ∀ j b q, ((s.storeResult resultMapMax a body).goto i a (.leaving l body)).requests j =
      some ⟨b, q⟩ → ∃ q', s.requests j = some ⟨b, q'⟩ ∧ q'.lock? = q.lock? ∧ q'.held? = q.held? := by
    intro j b q hj
    rcases goto_cases hj with ⟨rfl, rfl, rfl⟩ | ⟨-, hj⟩
    · exact ⟨_, hi, rfl, rfl⟩
    · exact ⟨q, hj, rfl, rfl⟩
  refine ⟨?_, fun b l' hb => h.table_lt b l' (ht b l' hb), ?_, ?_, ?_, ?_, ?_, ?_, h.once, ?_, ?_⟩
  · intro j b q l' hj hl'
    obtain ⟨q', hj, hlock, -⟩ := hold j b q hj
    exact h.lock_lt j b q' l' hj (hlock ▸ hl')
  · intro j b q l' hj hl'
    obtain ⟨q', hj, -, hheld⟩ := hold j b q hj
    exact h.held j b q' l' hj (hheld ▸ hl')
  · intro j k b c q q' l' hj hk hl hl'
    obtain ⟨r, hj, -, hheld⟩ := hold j b q hj
    obtain ⟨r', hk, -, hheld'⟩ := hold k c q' hk
    exact h.excl j k b c r r' l' hj hk (hheld ▸ hl) (hheld' ▸ hl')
  · intro j k b q q' l₁ l₂ hb hj hk h₁ h₂
    obtain ⟨r, hj, hlock, -⟩ := hold j b q hj
    obtain ⟨r', hk, hlock', -⟩ := hold k b q' hk
    have hba : s.results.get? b = none := by
      change (s.storeResult resultMapMax a body).results.get? b = none at hb
      rw [hr] at hb; split at hb
      · cases hb
      · exact hb
    exact h.shared j k b r r' l₁ l₂ hba hj hk (hlock ▸ h₁) (hlock' ▸ h₂)
  · intro j b q l₁ l₂ hb hj h₁ h₂
    obtain ⟨r, hj, hlock, -⟩ := hold j b q hj
    have hba : s.results.get? b = none := by
      change (s.storeResult resultMapMax a body).results.get? b = none at hb
      rw [hr] at hb; split at hb
      · cases hb
      · exact hb
    exact h.table j b r l₁ l₂ hba hj (hlock ▸ h₁) (ht b l₂ h₂)
  · intro j b q hj hq
    show (s.storeResult resultMapMax a body).results.get? b = none
    rcases goto_cases hj with ⟨-, -, rfl⟩ | ⟨hji, hj⟩
    · exact absurd hq id
    · rw [hr, if_neg]
      · exact h.unstored j b q hj hq
      · rintro rfl; exact hji (h.eq_of_unstored hj hi hq trivial)
  · intro j b q body' hj hq
    show (s.storeResult resultMapMax a body).results.get? b = some body'
    rcases goto_cases hj with ⟨-, rfl, rfl⟩ | ⟨-, hj⟩
    · rw [hr, if_pos rfl]; exact hq
    · have hb := h.body j b q body' hj hq
      rw [hr, if_neg]
      · exact hb
      · rintro rfl; rw [hres] at hb; cases hb
  · intro b hb hresb
    change (s.storeResult resultMapMax a body).results.get? b = none at hresb
    have hba : b ≠ a := by rintro rfl; rw [hr, if_pos rfl] at hresb; cases hresb
    rw [hr, if_neg hba] at hresb
    obtain ⟨j, q, hj, hq⟩ := h.ran b hb hresb
    have hji : j ≠ i := by
      rintro rfl
      exact hba (by simpa using (hi.symm.trans hj) : a = b ∧ _).1.symm
    exact ⟨j, q, by rw [goto_requests, if_neg hji]; exact hj, hq⟩
  · intro b hb
    change b ∈ (s.storeResult resultMapMax a body).results.keys at hb
    show b ∈ insert a s.stored
    obtain ⟨v, hv⟩ := Dict.mem_keys_iff.1 hb
    rw [hr] at hv
    split at hv
    · exact Finset.mem_insert.2 (.inl ‹_›)
    · exact Finset.mem_insert_of_mem (h.stored b (Dict.mem_keys_iff.2 ⟨v, hv⟩))

end Inv

/-! ### Steps and runs -/

variable {resultMapMax : ℕ} {s s' : State} {act : Act}

theorem inv_step (h : Inv s) (hk : LockKept s act) (hs : step resultMapMax s act = some s')
    (hmax : s'.stored.card < resultMapMax) : Inv s' := by
  cases act with
  | arrive i a tokenOk payloadOk =>
    simp only [step] at hs
    split at hs
    · split at hs
      · obtain rfl := Option.some.inj hs; exact h.arrive ‹_› (.inr ⟨_, rfl⟩)
      · split at hs <;> obtain rfl := Option.some.inj hs
        · exact h.arrive ‹_› (.inr ⟨_, rfl⟩)
        · exact h.arrive ‹_› (.inl rfl)
    · cases hs
  | obtain i =>
    simp only [step] at hs
    split at hs <;> [skip; cases hs]
    obtain rfl := Option.some.inj hs
    exact h.obtain ‹_› hk
  | acquire i =>
    simp only [step] at hs
    split at hs <;> [rename_i a l hi; cases hs]
    split at hs <;> [cases hs; rename_i hl]
    obtain rfl := Option.some.inj hs
    refine h.move hi _ (fun _ h => h) ?_ ?_ False.elim (fun _ hb => by cases hb) False.elim
    · intro l' hl'
      obtain rfl : l = l' := Option.some.inj hl'
      exact ⟨by simp, .inr (by simpa using hl)⟩
    · intro l' hl'
      by_cases hll : l' = l <;> simp [hll, hl']
  | lookUp i =>
    simp only [step] at hs
    split at hs <;> [rename_i a l hi; cases hs]
    split at hs <;> rename_i hres <;> obtain rfl := Option.some.inj hs
    · exact h.move hi s.held (fun _ h => h) (fun l' hl' => ⟨h.held i a _ l' hi hl', .inl hl'⟩)
        (fun _ h => .inl h) False.elim (fun b hb => hres.trans hb) False.elim
    · exact h.move hi s.held (fun _ h => h) (fun l' hl' => ⟨h.held i a _ l' hi hl', .inl hl'⟩)
        (fun _ h => .inl h) (fun _ => hres) (fun _ hb => by cases hb) False.elim
  | execute i =>
    simp only [step] at hs
    split at hs <;> [rename_i a l hi; cases hs]
    obtain rfl := Option.some.inj hs
    exact h.execute hi
  | executed i body =>
    simp only [step] at hs
    split at hs <;> [rename_i a l hi; cases hs]
    obtain rfl := Option.some.inj hs
    exact h.move hi s.held (fun _ h => h) (fun l' hl' => ⟨h.held i a _ l' hi hl', .inl hl'⟩)
      (fun _ h => .inl h) (fun _ => h.unstored i a _ hi trivial) (fun _ hb => by cases hb) fun _ => trivial
  | refuse i body =>
    simp only [step] at hs
    split at hs <;> [rename_i a l hi; cases hs]
    obtain rfl := Option.some.inj hs
    exact h.move hi s.held (fun _ h => h) (fun l' hl' => ⟨h.held i a _ l' hi hl', .inl hl'⟩)
      (fun _ h => .inl h) (fun _ => h.unstored i a _ hi trivial) (fun _ hb => by cases hb) fun _ => trivial
  | raise i =>
    simp only [step] at hs
    split at hs <;> [rename_i a l hi; cases hs]
    obtain rfl := Option.some.inj hs
    refine h.move hi _ (fun _ h => by cases h) (fun _ h => by cases h) ?_ False.elim
      (fun _ hb => by cases hb) False.elim
    intro l' hl'
    by_cases hll : l' = l
    · subst hll; exact .inr rfl
    · exact .inl (by simp [Function.update_of_ne hll, hl'])
  | store i =>
    simp only [step] at hs
    split at hs <;> [rename_i a l body hi; cases hs]
    obtain rfl := Option.some.inj hs
    exact h.store hi hmax
  | release i =>
    simp only [step] at hs
    split at hs <;> [rename_i a l body hi; cases hs]
    obtain rfl := Option.some.inj hs
    refine h.move hi _ (fun _ h => by cases h) (fun _ h => by cases h) ?_ False.elim
      (fun b hb => h.body i a _ b hi hb) False.elim
    intro l' hl'
    by_cases hll : l' = l
    · subst hll; exact .inr rfl
    · exact .inl (by simp [Function.update_of_ne hll, hl'])

theorem stored_step (hs : step resultMapMax s act = some s') : s.stored ⊆ s'.stored := by
  cases act <;> simp only [step, State.actionLock] at hs <;> grind [State.goto, State.storeResult]

theorem inv_of_reaches (h : Reaches (step resultMapMax) LockKept .init s)
    (hmax : s.stored.card < resultMapMax) : Inv s :=
  h.invariant_under (I := Inv) (H := fun s => s.stored.card < resultMapMax) (fun _ => Inv.init)
    (fun _ _ _ _ hs hmax => lt_of_le_of_lt (Finset.card_le_card (stored_step hs)) hmax)
    (fun _ _ _ hmax hi hk hs => inv_step hi hk hs hmax) hmax

theorem Inv.idempotent (h : Inv s) : Idempotent s :=
  ⟨h.once, fun i j a b b' hi hj =>
    Option.some.inj ((h.body i a _ b hi rfl).symm.trans (h.body j a _ b' hj rfl))⟩

/-- In every run that keeps its locks each action is executed at most once and all its 200 answers
agree. -/
theorem idempotent_of_lockKept (resultMapMax : ℕ) (s : State)
    (h : Reaches (step resultMapMax) LockKept .init s) (hmax : s.stored.card < resultMapMax) :
    Idempotent s :=
  (inv_of_reaches h hmax).idempotent

/-- A retry of `act-1` gets the lock object of the request that is inside `channels.execute`, waits for it, and
answers the same. -/
theorem idempotent_of_lockKept_retried : ∃ s body, s.requests 0 = some ⟨"act-1", .answered body⟩ ∧
    s.requests 1 = some ⟨"act-1", .answered body⟩ ∧ Idempotent s := by
  let body : ActionBody := ⟨"act-1", .executed, some "mock_erp", some "rules", some "ERP-1", ""⟩
  let s₁ : State := State.init.goto 0 "act-1" .arrived
  let s₂ : State := ((s₁.actionLock "act-1").2).goto 0 "act-1" (.obtained (s₁.actionLock "act-1").1)
  let during : List Act := [.acquire 0, .lookUp 0, .execute 0, .arrive 1 "act-1" true true]
  let s₃ : State := (run (step 500) s₂ during).get rfl
  let s₄ : State := s₃.goto 1 "act-1" (.obtained 0)
  have hrest : ∀ acts : List Act, (∀ i, .obtain i ∉ acts) → ∀ act ∈ acts, ∀ s, LockKept s act :=
    fun acts hno act hact s i a hi => absurd (hi ▸ hact) (hno i)
  have h₁ : Reaches (step 500) LockKept .init s₁ :=
    .single ⟨.arrive 0 "act-1" true true, fun _ _ h => (by cases h), rfl⟩
  have h₂ : Reaches (step 500) LockKept .init s₂ := by
    refine h₁.snoc (a := .obtain 0) (fun i a hi hreq _ _ j pc hj => ?_) rfl
    rcases goto_cases hj with ⟨-, -, rfl⟩ | ⟨-, hj⟩
    · rfl
    · cases hj
  have h₃ : Reaches (step 500) LockKept s₂ s₃ :=
    have hrun : run (step 500) s₂ during = some s₃ := rfl
    reaches_of_run (hrest during (by simp [during])) hrun
  have h₄ : Reaches (step 500) LockKept .init s₄ := by
    refine Reaches.snoc (h₂.trans h₃) (a := .obtain 1) (fun i a hi hreq hnone => ?_) rfl
    obtain rfl := Act.obtain.inj hi
    cases hreq
    cases hnone
  obtain ⟨s, hs, hp⟩ := exists_reaches_of_run (step 500) LockKept s₄
    [.executed 0 body, .store 0, .release 0, .acquire 1, .lookUp 1, .release 1]
    (fun s => decide (s.stored.card < 500 ∧ s.requests 0 = some ⟨"act-1", .answered body⟩ ∧
      s.requests 1 = some ⟨"act-1", .answered body⟩)) (hrest _ (by simp)) (by decide)
  obtain ⟨hcard, hfirst, hretry⟩ := of_decide_eq_true hp
  exact ⟨s, body, hfirst, hretry, idempotent_of_lockKept 500 s (h₄.trans hs) hcard⟩

/-- `act-1` is inside `channels.execute` when `act-2` stores its result, which drops the lock object
of `act-1` from the table; the retry of `act-1` gets a new one. -/
def retryActs : List Act :=
  let body : ActionBody := ⟨"act-2", .executed, some "mock_erp", some "rules", some "ERP-2", ""⟩
  [.arrive 0 "act-1" true true, .obtain 0, .acquire 0, .lookUp 0, .execute 0,
    .arrive 1 "act-2" true true, .obtain 1, .acquire 1, .lookUp 1, .execute 1, .executed 1 body, .store 1,
    .arrive 2 "act-1" true true, .obtain 2, .acquire 2, .lookUp 2, .execute 2]

/-- The clean-up in `_store_result` breaks idempotency far below `RESULT_MAP_MAX`. -/
theorem not_idempotent : ¬ ∀ (resultMapMax : ℕ) (s : State),
    Reaches (step resultMapMax) anyAct .init s → s.stored.card < resultMapMax → Idempotent s := by
  intro h
  obtain ⟨s, hs, hp⟩ := exists_reaches_of_run (step 500) anyAct .init retryActs
    (fun s => decide (s.stored.card < 500 ∧ s.executions.count "act-1" = 2))
    (fun _ _ _ => trivial) (by decide)
  obtain ⟨hcard, hcount⟩ := of_decide_eq_true hp
  have := (h 500 s hs hcard).1 "act-1"
  omega

end Agent

end Embassy
