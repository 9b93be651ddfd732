import Embassy.Lib.Capture
import Embassy.Lib.Dict
import Embassy.Lib.WindowLog

/-!
# The rate limiter (`verify/main.py`)

`check_rate_limit` keeps the recent times of each key, a bucket's name and an address. Over a whole
history of calls it counts exactly the earlier calls of the same bucket and address inside the window
(`exactWindow`).
-/

namespace Embassy
open Lib

namespace RateLimiter

inductive Bucket
  | challenge
  | verify
  | tier3Orders
  | tier3Poll
  deriving DecidableEq, Repr

def Bucket.name : Bucket → String
  | challenge => "challenge"
  | verify => "verify"
  | tier3Orders => "tier3_orders"
  | tier3Poll => "tier3_poll"

/-- `rate_limit_hits` -/
abbrev Hits := Dict String (List ℚ)

def rateKey (bucket clientIp : String) : String := s!"{bucket}:{clientIp}"

/-- `check_rate_limit`, with the reading of the clock it takes. -/
def checkRateLimit (now : ℚ) (rateLimitHits : Hits) (bucket clientIp : String) (maxRequests : ℕ)
    (windowSeconds : ℚ) : Bool × Hits :=
  let key := rateKey bucket clientIp
  let hits := hit windowSeconds now ((rateLimitHits.get? key).getD [])
  (hits.length ≤ maxRequests, rateLimitHits.set key hits)

structure Limits where
  maxRequests : Bucket → ℕ
  windowSeconds : Bucket → ℚ
  maxRequests_pos : ∀ b, 0 < maxRequests b
  windowSeconds_pos : ∀ b, 0 < windowSeconds b

structure RateCall where
  bucket : Bucket
  clientIp : String
  time : ℚ
  deriving DecidableEq, Repr

/-- Calls in the order they were made, on a clock that never runs backwards. -/
def Chronological (calls : List RateCall) : Prop := (calls.map RateCall.time).Pairwise (· ≤ ·)

namespace RateCall

def SameKey (c c' : RateCall) : Prop := c'.bucket = c.bucket ∧ c'.clientIp = c.clientIp

instance (c c' : RateCall) : Decidable (c.SameKey c') := inferInstanceAs (Decidable (_ ∧ _))

end RateCall

section
variable (limits : Limits)

/-- The call is made: whether it is admitted, and the hits after it. -/
def make (hits : Hits) (c : RateCall) : Bool × Hits :=
  checkRateLimit c.time hits c.bucket.name c.clientIp (limits.maxRequests c.bucket)
    (limits.windowSeconds c.bucket)

def hitsAfter (calls : List RateCall) : Hits := calls.foldl (fun hits c => (make limits hits c).2) .empty

/-- The call is admitted after the calls `before`. -/
def Admitted (before : List RateCall) (c : RateCall) : Prop := (make limits (hitsAfter limits before) c).1 = true

instance (before : List RateCall) (c : RateCall) : Decidable (Admitted limits before c) :=
  inferInstanceAs (Decidable (_ = _))

/-- The admitted ones among `calls`, which come after the calls `before`. -/
def admittedFrom : (before calls : List RateCall) → List RateCall
  | _, [] => []
  | before, c :: calls =>
    (if Admitted limits before c then [c] else []) ++ admittedFrom (before ++ [c]) calls

def admittedCalls (calls : List RateCall) : List RateCall := admittedFrom limits [] calls

/-- What is promised of a history. -/
structure ExactWindow (calls : List RateCall) : Prop where
  /-- Admitted are the calls with fewer than so many in the window before them, refused ones included. -/
  exact : ∀ before c after, calls = before ++ c :: after → (Admitted limits before c ↔
    (before.filter fun c' => c.SameKey c' ∧ c.time - limits.windowSeconds c.bucket < c'.time).length <
      limits.maxRequests c.bucket)
  /-- No interval shorter than the window has more admitted calls of one key. -/
  bounded : ∀ (c : RateCall) lo hi, hi - lo < limits.windowSeconds c.bucket →
    ((admittedCalls limits calls).filter fun c' => c.SameKey c' ∧ lo ≤ c'.time ∧ c'.time ≤ hi).length ≤
      limits.maxRequests c.bucket
  /-- The calls of other keys make no difference. -/
  isolated : ∀ before c after, calls = before ++ c :: after → (Admitted limits before c ↔
    Admitted limits (before.filter fun c' => c.SameKey c') c)

end

section
variable {limits : Limits} {calls before : List RateCall} {c c' : RateCall}

theorem colon_notMem_name (b : Bucket) : ':' ∉ b.name.toList := by cases b <;> decide

theorem name_injective {b b' : Bucket} (h : b.name.toList = b'.name.toList) : b = b' := by
  cases b <;> cases b' <;> first | rfl | exact absurd h (by decide)

theorem toList_rateKey (bucket clientIp : String) :
    (rateKey bucket clientIp).toList = bucket.toList ++ ':' :: clientIp.toList := by
  have hcolon : (toString ":").toList = [':'] := rfl
  rw [rateKey, String.toList_append, String.toList_append, hcolon, List.append_assoc]
  rfl

/-- The address may have colons, the name of the bucket has none. -/
theorem rateKey_inj : rateKey c'.bucket.name c'.clientIp = rateKey c.bucket.name c.clientIp ↔ c.SameKey c' := by
  constructor
  · intro h
    have h := congrArg String.toList h
    rw [toList_rateKey, toList_rateKey] at h
    obtain ⟨hname, hip⟩ := append_cons_inj (colon_notMem_name _) (colon_notMem_name _) h
    exact ⟨name_injective hname, String.toList_injective hip⟩
  · rintro ⟨hbucket, hip⟩
    rw [hbucket, hip]

/-- The times of the calls of `c`'s key. -/
def timesOf (c : RateCall) (calls : List RateCall) : List ℚ :=
  (calls.filter fun c' => c.SameKey c').map RateCall.time

theorem Chronological.of_split {after : List RateCall} (h : Chronological calls)
    (heq : calls = before ++ c :: after) : Chronological (before ++ [c]) := by
  refine h.sublist (List.Sublist.map _ ?_)
  rw [heq]
  exact List.Sublist.append (.refl _) (List.singleton_sublist.2 (List.mem_cons_self ..))

theorem Chronological.timesOf_concat (h : Chronological (before ++ [c])) :
    (timesOf c before ++ [c.time]).Pairwise (· ≤ ·) := by
  have hself : timesOf c (before ++ [c]) = timesOf c before ++ [c.time] := by
    simp [timesOf, RateCall.SameKey]
  rw [← hself]
  exact h.sublist (List.filter_sublist.map _)

theorem get?_hitsAfter (c : RateCall) (calls : List RateCall) :
    ((hitsAfter limits calls).get? (rateKey c.bucket.name c.clientIp)).getD [] =
      windowLog (limits.windowSeconds c.bucket) (timesOf c calls) := by
  induction calls using List.reverseRecOn with
  | nil => rfl
  | append_singleton calls c' ih =>
    have hstep : hitsAfter limits (calls ++ [c']) = (make limits (hitsAfter limits calls) c').2 := by
      rw [hitsAfter, List.foldl_concat, ← hitsAfter]
    rw [hstep, make, checkRateLimit, Dict.get?_set]
    by_cases hkey : c.SameKey c'
    · obtain ⟨hbucket, hip⟩ := hkey
      have htimes : timesOf c (calls ++ [c']) = timesOf c calls ++ [c'.time] := by
        simp [timesOf, RateCall.SameKey, hbucket, hip]
      rw [hbucket, hip, if_pos rfl, Option.getD_some, ih, htimes, windowLog_append_singleton]
    · have htimes : timesOf c (calls ++ [c']) = timesOf c calls := by simp [timesOf, hkey]
      rw [if_neg fun heq => hkey (rateKey_inj.1 heq.symm), ih, htimes]

theorem admitted_iff (h : Chronological (before ++ [c])) : Admitted limits before c ↔
    (recent (limits.windowSeconds c.bucket) c.time (timesOf c before)).length <
      limits.maxRequests c.bucket := by
  rw [Admitted, make, checkRateLimit, get?_hitsAfter, decide_eq_true_iff, ← Nat.succ_le_iff,
    Nat.succ_eq_add_one, ← length_windowLog_concat h.timesOf_concat, windowLog_append_singleton]

/-- The calls of `c`'s key in the window before it. -/
def earlier (limits : Limits) (c : RateCall) (before : List RateCall) : List RateCall :=
  before.filter fun c' => c.SameKey c' ∧ c.time - limits.windowSeconds c.bucket < c'.time

theorem length_earlier (limits : Limits) (c : RateCall) (before : List RateCall) :
    (earlier limits c before).length =
      (recent (limits.windowSeconds c.bucket) c.time (timesOf c before)).length := by
  have hp : ∀ c' : RateCall, decide (c.SameKey c' ∧ c.time - limits.windowSeconds c.bucket < c'.time) =
      (decide (c.time - c'.time < limits.windowSeconds c.bucket) && decide (c.SameKey c')) := by
    intro c'
    rw [← Bool.decide_and, decide_eq_decide, sub_lt_comm, and_comm]
  rw [recent, timesOf, List.filter_map, List.length_map, List.filter_filter, earlier]
  simp only [hp, Function.comp_apply]

theorem Chronological.admitted_iff (h : Chronological (before ++ [c])) :
    Admitted limits before c ↔ (earlier limits c before).length < limits.maxRequests c.bucket := by
  rw [RateLimiter.admitted_iff h, length_earlier]

theorem Chronological.filter_concat (h : Chronological (before ++ [c])) (p : RateCall → Bool) :
    Chronological (before.filter p ++ [c]) :=
  h.sublist ((List.filter_sublist.append (List.Sublist.refl [c])).map _)

theorem isolated (h : Chronological (before ++ [c])) : Admitted limits before c ↔
    Admitted limits (before.filter fun c' => c.SameKey c') c := by
  rw [h.admitted_iff, (h.filter_concat _).admitted_iff, earlier, earlier, List.filter_filter]
  simp only [Bool.decide_and, Bool.and_comm, Bool.and_self_left]

/-! ### Intervals shorter than the window -/

theorem admittedFrom_append (limits : Limits) (before calls calls' : List RateCall) :
    admittedFrom limits before (calls ++ calls') =
      admittedFrom limits before calls ++ admittedFrom limits (before ++ calls) calls' := by
  induction calls generalizing before with
  | nil => simp [admittedFrom]
  | cons c calls ih => simp [admittedFrom, ih]

theorem admittedCalls_concat (limits : Limits) (calls : List RateCall) (c : RateCall) :
    admittedCalls limits (calls ++ [c]) =
      admittedCalls limits calls ++ if Admitted limits calls c then [c] else [] := by
  rw [admittedCalls, admittedFrom_append, admittedCalls]
  simp [admittedFrom]

theorem admittedCalls_sublist (limits : Limits) (calls : List RateCall) :
    (admittedCalls limits calls).Sublist calls := by
  induction calls using List.reverseRecOn with
  | nil => exact .slnil
  | append_singleton calls c ih =>
    rw [admittedCalls_concat]
    split
    · exact ih.append (.refl _)
    · simpa using ih.trans (List.sublist_append_left ..)

/-- The admitted calls of one key in an interval. -/
def admittedIn (limits : Limits) (c : RateCall) (lo hi : ℚ) (calls : List RateCall) : List RateCall :=
  (admittedCalls limits calls).filter fun c' => c.SameKey c' ∧ lo ≤ c'.time ∧ c'.time ≤ hi

/-- Just before the last admitted call of the interval, all others are in its window. -/
theorem length_admittedIn_le (h : Chronological calls) (c : RateCall) {lo hi : ℚ}
    (hshort : hi - lo < limits.windowSeconds c.bucket) :
    (admittedIn limits c lo hi calls).length ≤ limits.maxRequests c.bucket := by
  induction calls using List.reverseRecOn with
  | nil => exact Nat.zero_le _
  | append_singleton calls last ih =>
    have hcalls : Chronological calls := h.sublist ((List.sublist_append_left calls [last]).map _)
    rw [admittedIn, admittedCalls_concat]
    split
    · rename_i hadmitted
      by_cases hin : c.SameKey last ∧ lo ≤ last.time ∧ last.time ≤ hi
      · obtain ⟨⟨hbucket, hip⟩, hlo, hhi⟩ := hin
        have hsub : (admittedIn limits c lo hi calls).Sublist (earlier limits last calls) := by
          refine ((admittedCalls_sublist limits calls).filter _).trans ?_
          refine List.monotone_filter_right _ fun c' hc' => ?_
          simp only [decide_eq_true_eq] at hc' ⊢
          obtain ⟨⟨hbucket', hip'⟩, hlo', -⟩ := hc'
          refine ⟨⟨hbucket'.trans hbucket.symm, hip'.trans hip.symm⟩, ?_⟩
          rw [hbucket]
          linarith
        have hlt := h.admitted_iff.1 hadmitted
        rw [hbucket] at hlt
        rw [List.filter_append, List.length_append]
        have hone : ([last].filter fun c' => decide (c.SameKey c' ∧ lo ≤ c'.time ∧ c'.time ≤ hi)).length ≤ 1 :=
          List.length_filter_le ..
        have hle := hsub.length_le
        rw [admittedIn] at hle
        omega
      · rw [List.filter_append, List.filter_cons_of_neg (by simpa only [decide_eq_true_eq] using hin),
          List.filter_nil, List.append_nil]
        exact ih hcalls
    · rw [List.append_nil]
      exact ih hcalls

end

/-- For all limits and every history on a clock that never runs backwards: a call is admitted exactly if
fewer than so many calls of its key precede it in the window; so no shorter interval has more admitted
calls, and other keys make no difference. -/
theorem exactWindow (limits : Limits) (calls : {calls : List RateCall // Chronological calls}) :
    ExactWindow limits calls where
  exact _ _ _ heq := (calls.2.of_split heq).admitted_iff
  bounded c _ _ hshort := length_admittedIn_le calls.2 c hshort
  isolated _ _ _ heq := RateLimiter.isolated (calls.2.of_split heq)

def twoInTen : Limits where
  maxRequests _ := 2
  windowSeconds _ := 10
  maxRequests_pos _ := Nat.two_pos
  windowSeconds_pos _ := by norm_num

/-- The address is IPv6; at 15 the call at 5 is as old as the window. -/
def loopbackCalls : List RateCall :=
  [⟨.challenge, "::1", 0⟩, ⟨.challenge, "::1", 5⟩, ⟨.verify, "::1", 6⟩, ⟨.challenge, "::1", 9⟩, ⟨.challenge, "::1", 15⟩]

theorem chronological_loopbackCalls : Chronological loopbackCalls := by
  norm_num [Chronological, loopbackCalls]

theorem exactWindow_loopback : ExactWindow twoInTen loopbackCalls ∧
    (admittedCalls twoInTen loopbackCalls).map RateCall.time = [0, 5, 6, 15] :=
  ⟨exactWindow twoInTen ⟨loopbackCalls, chronological_loopbackCalls⟩, by decide +kernel⟩

end RateLimiter

end Embassy
