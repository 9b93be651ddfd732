import Embassy.Lib.Runs
import Embassy.Tier3Store

/-!
# `record_tier3_event`, cut where other threads can run

`record_tier3_event` appends to the list `tier3_events` refers to, then twice reads the attribute,
builds a shorter list and rebinds the attribute to it. Calls inside `tier3_lock` exclude one another;
the rejections that `create_tier3_order` records outside it exclude nobody. So an event that is
appended while another call holds a list that will replace the current one is dropped with it
(`not_nothingLost`); otherwise nothing is (`nothingLost_of_copyCurrent`).
-/

namespace Embassy
open Lib

namespace ConcurrentAudit

abbrev ListId := ℕ

/-- Where a call of `record_tier3_event` stands. -/
inductive Pc
  /-- It took its reading of the clock. -/
  | started
  | appended
  /-- The age prune iterates over this list object. -/
  | pruning (list : ListId)
  /-- The age prune kept these; the attribute is not rebound yet. -/
  | pruned (kept : List Tier3Event)
  | rebound
  /-- The cap kept these; the attribute is not rebound yet. -/
  | capped (kept : List Tier3Event)
  | done
  deriving DecidableEq, Repr

namespace Pc

def list? : Pc → Option ListId
  | pruning l => some l
  | _ => none

/-- The list it is about to rebind the attribute to. -/
def copy? : Pc → Option (List Tier3Event)
  | pruned kept | capped kept => some kept
  | _ => none

end Pc

structure Request where
  inLock : Bool
  event : Tier3Event
  pc : Pc
  deriving DecidableEq, Repr

/-- The list objects, which one `tier3_events` refers to, who holds `tier3_lock`, the calls in flight,
and the events appended so far. -/
structure State where
  clock : ℤ
  lists : ListId → List Tier3Event
  tier3Events : ListId
  nextList : ListId
  holder : Option ℕ
  requests : ℕ → Option Request
  recorded : List Tier3Event

namespace State

def init (clock : ℤ) : State := ⟨clock, fun _ => [], 0, 1, none, fun _ => none, []⟩

/-- The list `tier3_events` refers to. -/
def current (s : State) : List Tier3Event := s.lists s.tier3Events

def goto (i : ℕ) (r : Request) (s : State) : State :=
  { s with requests := Function.update s.requests i (some r) }

/-- `self.tier3_events.append(e)` -/
def append (e : Tier3Event) (s : State) : State :=
  { s with
    lists := Function.update s.lists s.tier3Events (s.current ++ [e])
    recorded := s.recorded ++ [e] }

/-- `self.tier3_events = kept`: a new list object. -/
def rebind (kept : List Tier3Event) (s : State) : State :=
  { s with
    lists := Function.update s.lists s.nextList kept
    tier3Events := s.nextList
    nextList := s.nextList + 1 }

/-- Leave `tier3_lock`, where the call is inside it. -/
def leave (i : ℕ) (s : State) : State :=
  { s with holder := if s.holder = some i then none else s.holder }

end State

inductive Act
  /-- Time passes, up to `now`. -/
  | advance (now : ℤ)
  /-- A call of `record_tier3_event` with these arguments takes its reading. -/
  | start (i : ℕ) (inLock : Bool) (clientId item : String) (amountCents : ℕ) (outcome : Outcome)
      (reason : String) (orderNumber actionId : Option String)
  | append (i : ℕ)
  /-- The age prune reads the attribute, ... -/
  | read (i : ℕ)
  /-- ... goes through the list it read, ... -/
  | prune (i : ℕ)
  /-- ... and rebinds the attribute. -/
  | rebind (i : ℕ)
  /-- The cap reads the attribute and goes through a fixed range of it, ... -/
  | cap (i : ℕ)
  /-- ... and rebinds the attribute. -/
  | finish (i : ℕ)

/-- One step of one call. Outside the lock only rejections are recorded. -/
def step (cfg : Tier3Config) (s : State) : Act → Option State
  | .advance now => if s.clock ≤ now then some { s with clock := now } else none
  | .start i inLock clientId item amountCents outcome reason orderNumber actionId =>
    let e : Tier3Event := ⟨s.clock, clientId, item, amountCents, outcome, reason, orderNumber, actionId⟩
    match s.requests i, inLock with
    | none, true =>
      if s.holder = none then some ({ s with holder := some i }.goto i ⟨true, e, .started⟩) else none
    | none, false => if outcome = .rejected then some (s.goto i ⟨false, e, .started⟩) else none
    | some _, _ => none
  | .append i =>
    match s.requests i with
    | some ⟨inLock, e, .started⟩ => some ((s.append e).goto i ⟨inLock, e, .appended⟩)
    | _ => none
  | .read i =>
    match s.requests i with
    | some ⟨inLock, e, .appended⟩ => some (s.goto i ⟨inLock, e, .pruning s.tier3Events⟩)
    | _ => none
  | .prune i =>
    match s.requests i with
    | some ⟨inLock, e, .pruning l⟩ => some (s.goto i ⟨inLock, e, .pruned (pruneByAge cfg e.atTime (s.lists l))⟩)
    | _ => none
  | .rebind i =>
    match s.requests i with
    | some ⟨inLock, e, .pruned kept⟩ => some ((s.rebind kept).goto i ⟨inLock, e, .rebound⟩)
    | _ => none
  | .cap i =>
    match s.requests i with
    | some ⟨inLock, e, .rebound⟩ => some (s.goto i ⟨inLock, e, .capped (capPerClient cfg s.current)⟩)
    | _ => none
  | .finish i =>
    match s.requests i with
    | some ⟨inLock, e, .capped kept⟩ => some (((s.rebind kept).leave i).goto i ⟨inLock, e, .done⟩)
    | _ => none

def Finished (s : State) : Prop := ∀ i r, s.requests i = some r → r.pc = .done

/-- The events of the client in the window that ends at `t`. -/
def recent (cfg : Tier3Config) (c : String) (t : ℤ) (events : List Tier3Event) : List Tier3Event :=
  events.filter fun e => e.clientId = c ∧ t - cfg.windowSeconds ≤ e.atTime

/-- The client recorded at most `tier3_audit_max` events. -/
def UnderCap (cfg : Tier3Config) (c : String) (recorded : List Tier3Event) : Prop :=
  (recorded.filter fun e => e.clientId = c).length ≤ cfg.auditMax

/-- Nothing a client under the cap recorded in the window is missing. -/
structure NothingLost (cfg : Tier3Config) (s : State) : Prop where
  kept : ∀ e ∈ s.recorded, s.clock - cfg.windowSeconds ≤ e.atTime → UnderCap cfg e.clientId s.recorded →
    e ∈ s.current
  /-- Its accepted events all count. -/
  counted : ∀ c, UnderCap cfg c s.recorded →
    tier3UsedCents cfg s.current c s.clock = tier3UsedCents cfg s.recorded c s.clock

/-- Nobody appends while another call has a list that is to replace the current one, or is to make
one of a list that has been replaced. -/
def CopyCurrent (s : State) : Act → Prop
  | .append i => ∀ j r, j ≠ i → s.requests j = some r →
      r.pc.copy? = none ∧ ∀ l, r.pc.list? = some l → l = s.tier3Events
  | _ => True

/-- The list has, in order, only events that were recorded, and all the recent ones of every client
under the cap. -/
structure Complete (cfg : Tier3Config) (now : ℤ) (recorded l : List Tier3Event) : Prop where
  sublist : l.Sublist recorded
  recent_eq : ∀ c t, now ≤ t → UnderCap cfg c recorded → recent cfg c t l = recent cfg c t recorded

namespace Complete
variable {cfg : Tier3Config} {now now' : ℤ} {recorded l : List Tier3Event}

theorem append (h : Complete cfg now recorded l) (e : Tier3Event) :
    Complete cfg now (recorded ++ [e]) (l ++ [e]) := by
  refine ⟨h.sublist.append_right [e], fun c t ht hcap => ?_⟩
  have hcap' : UnderCap cfg c recorded := by
    rw [UnderCap, List.filter_append, List.length_append] at hcap
    exact (Nat.le_add_right _ _).trans hcap
  have hold := h.recent_eq c t ht hcap'
  rw [recent, recent] at hold ⊢
  rw [List.filter_append, List.filter_append, hold]

theorem prune (h : Complete cfg now recorded l) (hnow : now' ≤ now) :
    Complete cfg now recorded (pruneByAge cfg now' l) := by
  refine ⟨List.filter_sublist.trans h.sublist, fun c t ht hcap => ?_⟩
  rw [← h.recent_eq c t ht hcap, recent, pruneByAge, List.filter_filter]
  refine List.filter_congr fun e _ => ?_
  by_cases hrecent : t - cfg.windowSeconds ≤ e.atTime
  · have : now' - cfg.windowSeconds ≤ e.atTime := by omega
    simp [this]
  · simp [hrecent]

theorem cap (h : Complete cfg now recorded l) : Complete cfg now recorded (capPerClient cfg l) := by
  refine ⟨(capPerKey_sublist l).trans h.sublist, fun c t ht hcap => ?_⟩
  have hlen : (l.filter fun e => e.clientId = c).length ≤ cfg.auditMax :=
    (h.sublist.filter _).length_le.trans hcap
  have hown : (capPerClient cfg l).filter (fun e => e.clientId = c) = l.filter fun e => e.clientId = c := by
    rw [capPerClient, filter_capPerKey, List.rtake, Nat.sub_eq_zero_of_le hlen, List.drop_zero]
  have hsplit : ∀ m : List Tier3Event, recent cfg c t m =
      (m.filter fun e => e.clientId = c).filter fun e => t - cfg.windowSeconds ≤ e.atTime := by
    intro m
    rw [List.filter_filter]
    exact List.filter_congr fun e _ => by rw [Bool.decide_and, Bool.and_comm]
  rw [← h.recent_eq c t ht hcap, hsplit, hsplit, hown]

theorem advance (h : Complete cfg now recorded l) (hle : now ≤ now') : Complete cfg now' recorded l :=
  ⟨h.sublist, fun c t ht hcap => h.recent_eq c t (hle.trans ht) hcap⟩

theorem nothingLost {s : State} (h : Complete cfg s.clock s.recorded s.current) : NothingLost cfg s where
  kept e he hage hcap := by
    have hmem : e ∈ recent cfg e.clientId s.clock s.recorded := List.mem_filter.2 ⟨he, by simpa using hage⟩
    rw [← h.recent_eq _ _ le_rfl hcap] at hmem
    exact List.mem_of_mem_filter hmem
  counted c hcap := by
    have hcounts : ∀ m : List Tier3Event, m.filter (counts cfg c s.clock) =
        (recent cfg c s.clock m).filter fun e => e.outcome = .accepted := by
      intro m
      rw [recent, List.filter_filter]
      exact List.filter_congr fun e _ => by simp only [counts, Bool.decide_and, Bool.and_left_comm]
    rw [tier3UsedCents, tier3UsedCents, hcounts, hcounts, h.recent_eq c _ le_rfl hcap]

end Complete

/-! ### The invariant -/

/-- Every list that is or may become the current one is complete. -/
structure Inv (cfg : Tier3Config) (s : State) : Prop where
  current : Complete cfg s.clock s.recorded s.current
  made : s.tier3Events < s.nextList
  taken : ∀ i r, s.requests i = some r → r.event.atTime ≤ s.clock
  reading : ∀ i r l, s.requests i = some r → r.pc.list? = some l →
    l < s.nextList ∧ Complete cfg s.clock s.recorded (s.lists l)
  copies : ∀ i r kept, s.requests i = some r → r.pc.copy? = some kept →
    Complete cfg s.clock s.recorded kept

section
variable {cfg : Tier3Config} {s s' : State} {act : Act} {i : ℕ} {r : Request}

namespace Inv

theorem init (now : ℤ) : Inv cfg (.init now) where
  current := ⟨.slnil, fun _ _ _ _ => rfl⟩
  made := Nat.zero_lt_one
  taken _ _ h := by cases h
  reading _ _ _ h := by cases h
  copies _ _ _ h := by cases h

theorem holder (h : Inv cfg s) (x : Option ℕ) : Inv cfg { s with holder := x } :=
  ⟨h.current, h.made, h.taken, h.reading, h.copies⟩

theorem goto (h : Inv cfg s) (i : ℕ) (htaken : r.event.atTime ≤ s.clock)
    (hlist : ∀ l, r.pc.list? = some l → l < s.nextList ∧ Complete cfg s.clock s.recorded (s.lists l))
    (hcopy : ∀ kept, r.pc.copy? = some kept → Complete cfg s.clock s.recorded kept) :
    Inv cfg (s.goto i r) := by
  have hcases : ∀ j r', (s.goto i r).requests j = some r' → r' = r ∨ s.requests j = some r' := by
    intro j r' hj
    change Function.update s.requests i (some r) j = some r' at hj
    rw [Function.update_apply] at hj
    split at hj
    · exact .inl (Option.some.inj hj).symm
    · exact .inr hj
  refine ⟨h.current, h.made, fun j r' hj => ?_, fun j r' l hj hl => ?_, fun j r' kept hj hk => ?_⟩
  · rcases hcases j r' hj with rfl | hj
    · exact htaken
    · exact h.taken j r' hj
  · rcases hcases j r' hj with rfl | hj
    · exact hlist l hl
    · exact h.reading j r' l hj hl
  · rcases hcases j r' hj with rfl | hj
    · exact hcopy kept hk
    · exact h.copies j r' kept hj hk

/-- An event appended while every other call will still see it. -/
theorem append (h : Inv cfg s) (e : Tier3Event) (hall : ∀ j r, s.requests j = some r →
    r.pc.copy? = none ∧ ∀ l, r.pc.list? = some l → l = s.tier3Events) : Inv cfg (s.append e) := by
  have hcurrent : Complete cfg s.clock (s.recorded ++ [e]) ((s.append e).lists s.tier3Events) := by
    rw [show (s.append e).lists s.tier3Events = s.current ++ [e] from Function.update_self ..]
    exact h.current.append e
  refine ⟨hcurrent, h.made, h.taken, fun j r l hj hl => ?_, fun j r kept hj hk => ?_⟩
  · obtain rfl := (hall j r hj).2 l hl
    exact ⟨h.made, hcurrent⟩
  · rw [(hall j r hj).1] at hk; cases hk

theorem rebind (h : Inv cfg s) {kept : List Tier3Event} (hk : Complete cfg s.clock s.recorded kept) :
    Inv cfg (s.rebind kept) := by
  refine ⟨?_, Nat.lt_succ_self _, h.taken, fun j r l hj hl => ?_, h.copies⟩
  · rw [show (s.rebind kept).current = kept from Function.update_self ..]; exact hk
  · obtain ⟨hlt, hl⟩ := h.reading j r l hj hl
    rw [show (s.rebind kept).lists l = s.lists l from Function.update_of_ne hlt.ne ..]
    exact ⟨Nat.lt_succ_of_lt hlt, hl⟩

theorem advance (h : Inv cfg s) {now : ℤ} (hle : s.clock ≤ now) : Inv cfg { s with clock := now } where
  current := h.current.advance hle
  made := h.made
  taken i r hi := (h.taken i r hi).trans hle
  reading i r l hi hl := ⟨(h.reading i r l hi hl).1, (h.reading i r l hi hl).2.advance hle⟩
  copies i r kept hi hk := (h.copies i r kept hi hk).advance hle

end Inv

theorem inv_step (h : Inv cfg s) (hok : CopyCurrent s act) (hs : step cfg s act = some s') : Inv cfg s' := by
  cases act with
  | advance now =>
    simp only [step] at hs
    split at hs <;> [rename_i hle; cases hs]
    obtain rfl := Option.some.inj hs
    exact h.advance hle
  | start i inLock clientId item amountCents outcome reason orderNumber actionId =>
    simp only [step] at hs
    split at hs
    · split at hs <;> [skip; cases hs]
      obtain rfl := Option.some.inj hs
      exact (h.holder (some i)).goto i (le_refl s.clock) (by rintro l ⟨⟩) (by rintro k ⟨⟩)
    · split at hs <;> [skip; cases hs]
      obtain rfl := Option.some.inj hs
      exact h.goto i (le_refl s.clock) (by rintro l ⟨⟩) (by rintro k ⟨⟩)
    · cases hs
  | append i =>
    simp only [step] at hs
    split at hs <;> [rename_i inLock e hi; cases hs]
    obtain rfl := Option.some.inj hs
    have htaken : e.atTime ≤ s.clock := h.taken i _ hi
    refine (h.append e fun j r hj => ?_).goto i htaken (by rintro l ⟨⟩) (by rintro k ⟨⟩)
    by_cases hji : j = i
    · subst hji
      obtain rfl := Option.some.inj (hi.symm.trans hj)
      exact ⟨rfl, by rintro l ⟨⟩⟩
    · exact hok j r hji hj
  | read i =>
    simp only [step] at hs
    split at hs <;> [rename_i inLock e hi; cases hs]
    obtain rfl := Option.some.inj hs
    have htaken : e.atTime ≤ s.clock := h.taken i _ hi
    refine h.goto i htaken (fun l hl => ?_) (by rintro k ⟨⟩)
    obtain rfl := Option.some.inj hl
    exact ⟨h.made, h.current⟩
  | prune i =>
    simp only [step] at hs
    split at hs <;> [rename_i inLock e l hi; cases hs]
    obtain rfl := Option.some.inj hs
    have htaken : e.atTime ≤ s.clock := h.taken i _ hi
    refine h.goto i htaken (by rintro l ⟨⟩) fun kept hk => ?_
    obtain rfl := Option.some.inj hk
    exact (h.reading i _ l hi rfl).2.prune htaken
  | rebind i =>
    simp only [step] at hs
    split at hs <;> [rename_i inLock e kept hi; cases hs]
    obtain rfl := Option.some.inj hs
    have htaken : e.atTime ≤ s.clock := h.taken i _ hi
    exact (h.rebind (h.copies i _ kept hi rfl)).goto i htaken (by rintro l ⟨⟩) (by rintro k ⟨⟩)
  | cap i =>
    simp only [step] at hs
    split at hs <;> [rename_i inLock e hi; cases hs]
    obtain rfl := Option.some.inj hs
    have htaken : e.atTime ≤ s.clock := h.taken i _ hi
    refine h.goto i htaken (by rintro l ⟨⟩) fun kept hk => ?_
    obtain rfl := Option.some.inj hk
    exact h.current.cap
  | finish i =>
    simp only [step] at hs
    split at hs <;> [rename_i inLock e kept hi; cases hs]
    obtain rfl := Option.some.inj hs
    have htaken : e.atTime ≤ s.clock := h.taken i _ hi
    exact ((h.rebind (h.copies i _ kept hi rfl)).holder _).goto i htaken (by rintro l ⟨⟩) (by rintro k ⟨⟩)

/-- A call that nobody interrupts is `record_tier3_event` as a whole. -/
theorem run_alone {inLock : Bool} {e : Tier3Event} (hi : s.requests i = some ⟨inLock, e, .started⟩) :
    (run (step cfg) s [.append i, .read i, .prune i, .rebind i, .cap i, .finish i]).map State.current =
      some (recordTier3Event cfg s.current e) := by
  simp [step, hi, State.goto, State.append, State.rebind, State.leave, State.current, recordTier3Event]

/-! ### Calls inside the lock only -/

/-- Every call is made inside `tier3_lock`. -/
def InLock (_ : State) : Act → Prop
  | .start _ inLock .. => inLock = true
  | _ => True

/-- Who is on the way holds the lock. -/
def Exclusive (s : State) : Prop := ∀ i r, s.requests i = some r → r.pc = .done ∨ s.holder = some i

theorem exclusive_goto (h : Exclusive s) (hi : s.holder = some i) : Exclusive (s.goto i r) := by
  intro j r' hj
  change Function.update s.requests i (some r) j = some r' at hj
  rw [Function.update_apply] at hj
  split at hj <;> rename_i hji
  · exact .inr (hji ▸ hi)
  · exact h j r' hj

theorem Exclusive.holder (h : Exclusive s) (hi : s.requests i = some r) (hr : r.pc ≠ .done) :
    s.holder = some i := (h i r hi).resolve_left hr

theorem exclusive_step (h : Exclusive s) (hok : InLock s act) (hs : step cfg s act = some s') :
    Exclusive s' := by
  cases act with
  | advance now =>
    simp only [step] at hs
    split at hs <;> [skip; cases hs]
    obtain rfl := Option.some.inj hs
    exact h
  | start i inLock clientId item amountCents outcome reason orderNumber actionId =>
    obtain rfl : inLock = true := hok
    simp only [step] at hs
    split at hs <;> [rename_i hi _; contradiction; cases hs]
    split at hs <;> [rename_i hfree; cases hs]
    obtain rfl := Option.some.inj hs
    refine exclusive_goto (fun j r hj => .inl ?_) rfl
    exact (h j r hj).resolve_right (by rw [hfree]; rintro ⟨⟩)
  | append i | read i | prune i | rebind i | cap i =>
    simp only [step] at hs
    split at hs <;> [rename_i hi; cases hs]
    obtain rfl := Option.some.inj hs
    exact exclusive_goto h (h.holder hi (by rintro ⟨⟩))
  | finish i =>
    simp only [step] at hs
    split at hs <;> [rename_i inLock e kept hi; cases hs]
    obtain rfl := Option.some.inj hs
    have hholder := h.holder hi (by rintro ⟨⟩)
    intro j r hj
    change Function.update s.requests i (some ⟨inLock, e, .done⟩) j = some r at hj
    rw [Function.update_apply] at hj
    split at hj <;> rename_i hji
    · obtain rfl := Option.some.inj hj; exact .inl rfl
    · refine .inl ((h j r hj).resolve_right fun hj' => hji ?_)
      exact Option.some.inj (hj'.symm.trans hholder)

/-- The lock keeps every copy current. -/
theorem copyCurrent_of_exclusive (h : Exclusive s) (hs : step cfg s act = some s') : CopyCurrent s act := by
  cases act with
  | append i =>
    simp only [step] at hs
    split at hs <;> [rename_i inLock e hi; cases hs]
    intro j r hji hj
    have hdone : r.pc = .done := (h j r hj).resolve_right fun hj' =>
      hji (Option.some.inj (hj'.symm.trans (h.holder hi (by rintro ⟨⟩))))
    rw [hdone]
    exact ⟨rfl, by rintro _ ⟨⟩⟩
  | _ => trivial

end

/-- With every call inside the lock nothing is lost, however the calls interleave. -/
theorem nothingLost_of_inLock (cfg : Tier3Config) (now : ℤ) (s : State)
    (h : Reaches (step cfg) InLock (.init now) s) : NothingLost cfg s := by
  have hI : Inv cfg s ∧ Exclusive s := h.invariant (I := fun s => Inv cfg s ∧ Exclusive s)
    ⟨Inv.init now, fun _ _ hi => by cases hi⟩ fun _ _ _ hI hok hs =>
      ⟨inv_step hI.1 (copyCurrent_of_exclusive hI.2 hs) hs, exclusive_step hI.2 hok hs⟩
  exact hI.1.current.nothingLost

/-- In every run that only appends while every copy is current, nothing is lost. -/
theorem nothingLost_of_copyCurrent (cfg : Tier3Config) (now : ℤ) (s : State)
    (h : Reaches (step cfg) CopyCurrent (.init now) s) : NothingLost cfg s :=
  (h.invariant (Inv.init now) fun _ _ _ hI hok hs => inv_step hI hok hs).current.nothingLost

/-- A rejection of an unknown caller, outside the lock. -/
def rejectUnknown (i : ℕ) : Act :=
  .start i false "unknown" "chair" 100 .rejected "client certificate not verified" none none

/-- A reservation of `partner-a`, under the lock. -/
def reserveA (i : ℕ) : Act :=
  .start i true "partner-a" "chair" 300 .accepted "within mandate -- handoff in progress" none (some "act-1")

/-- Both are appended before either call builds a list. -/
theorem nothingLost_of_copyCurrent_overlapping : ∃ s, Finished s ∧ s.recorded.length = 2 ∧
    NothingLost ⟨100, 50, 100, 10, 100, 50⟩ s := by
  let cfg : Tier3Config := ⟨100, 50, 100, 10, 100, 50⟩
  let rest : List Act := [.read 0, .prune 0, .read 1, .rebind 0, .prune 1, .cap 0, .rebind 1, .finish 0, .cap 1, .finish 1]
  let s₁ : State := (run (step cfg) (.init 0) [rejectUnknown 0, reserveA 1]).get rfl
  let s₂ : State := (run (step cfg) s₁ [.append 0]).get rfl
  let s₃ : State := (run (step cfg) s₂ [.append 1]).get rfl
  let s₄ : State := (run (step cfg) s₃ rest).get rfl
  have h₁ : Reaches (step cfg) CopyCurrent (.init 0) s₁ :=
    have hrun : run (step cfg) (.init 0) [rejectUnknown 0, reserveA 1] = some s₁ := rfl
    reaches_of_run (fun a ha _ => by
      rcases List.mem_cons.1 ha with rfl | ha
      · trivial
      · obtain rfl := List.mem_singleton.1 ha
        trivial) hrun
  have h₂ : Reaches (step cfg) CopyCurrent (.init 0) s₂ := by
    refine Reaches.snoc h₁ (a := .append 0) (fun j r hj hreq => ?_) rfl
    rcases j with _ | _ | j
    · exact absurd rfl hj
    · obtain rfl := Option.some.inj hreq
      exact ⟨rfl, fun l hl => by cases hl⟩
    · cases hreq
  have h₃ : Reaches (step cfg) CopyCurrent (.init 0) s₃ := by
    refine Reaches.snoc h₂ (a := .append 1) (fun j r hj hreq => ?_) rfl
    rcases j with _ | _ | j
    · obtain rfl := Option.some.inj hreq
      exact ⟨rfl, fun l hl => by cases hl⟩
    · exact absurd rfl hj
    · cases hreq
  have hnone : ∀ a ∈ rest, ∀ s, CopyCurrent s a := by
    intro a ha s
    cases a with
    | append i => simp [rest] at ha
    | _ => trivial
  have h₄ : Reaches (step cfg) CopyCurrent s₃ s₄ :=
    have hrun : run (step cfg) s₃ rest = some s₄ := rfl
    reaches_of_run hnone hrun
  have hfinished : Finished s₄ := by
    intro i r hi
    rcases i with _ | _ | i
    · obtain rfl := Option.some.inj hi; rfl
    · obtain rfl := Option.some.inj hi; rfl
    · cases hi
  exact ⟨s₄, hfinished, rfl, nothingLost_of_copyCurrent cfg 0 s₄ (h₃.trans h₄)⟩

/-- The reservation of `partner-a` is appended, under the lock, between the age prune of a rejection of
an unknown caller and its rebinding. -/
def lostActs : List Act :=
  [rejectUnknown 0, .append 0, .read 0, .prune 0, reserveA 1, .append 1, .rebind 0, .cap 0, .finish 0, .read 1, .prune 1,
    .rebind 1, .cap 1, .finish 1]

/-- When both have returned the reservation is gone, and does not count. -/
theorem not_nothingLost : ¬ ∀ cfg now s, Reaches (step cfg) anyAct (.init now) s → Finished s →
    NothingLost cfg s := by
  intro h
  let cfg : Tier3Config := ⟨100, 50, 100, 10, 100, 50⟩
  let s : State := (run (step cfg) (.init 0) lostActs).get rfl
  have hs : run (step cfg) (.init 0) lostActs = some s := rfl
  have hfinished : Finished s := by
    intro i r hi
    match i with
    | 0 | 1 => obtain rfl := Option.some.inj hi; rfl
    | i + 2 => cases hi
  have hcap : UnderCap cfg "partner-a" s.recorded := by unfold UnderCap; decide
  have hcounted := (h cfg 0 s (reaches_of_run (fun _ _ _ => trivial) hs) hfinished).counted "partner-a" hcap
  have hused : tier3UsedCents cfg s.current "partner-a" s.clock = 0 := by decide
  have hreserved : tier3UsedCents cfg s.recorded "partner-a" s.clock = 300 := by decide
  omega

end ConcurrentAudit

end Embassy
