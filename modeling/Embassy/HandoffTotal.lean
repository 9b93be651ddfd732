import Embassy.HandoffSafety

/-!
# When `execute_handoff` returns

`_parse_ok_body` decides exactly whether a body is a well-formed answer (`Answers`), on the bodies it
gets to the end of (`BodyReadable`): `json.loads` raises nothing but the two exceptions it catches, and
no list or object stands where it looks a value up in a set. `execute_handoff` returns on the attempts
whose bodies it can read (`HandoffReadable`), and raises on all others.
-/

namespace Embassy

namespace Json

/-- `hash(v)` does not raise; a missing name reads as `None`. -/
def Hashable : Option Json → Prop
  | some (.arr _) | some (.obj _) => False
  | _ => True

variable {strs : List String} {v : Option Json} {s : String}

theorem inSet_of_hashable (h : Hashable v) :
    inSet strs v = .ok (decide (∃ s ∈ strs, str? v = some s)) := by
  unfold Hashable at h
  rcases v with _ | _ | _ | _ | s | _ | _ <;> first | exact h.elim | simp [inSet, str?]

theorem inSet_of_not_hashable (h : ¬ Hashable v) : inSet strs v = .error .typeError := by
  rcases v with _ | _ | _ | _ | _ | _ | _ <;> first | exact absurd trivial h | rfl

end Json

open Json

/-- The result that a well-formed answer stands for. -/
inductive Answers (data : List (String × Json)) (actionId : String) : HandoffResult → Prop
  | executed {channel decidedBy reference : String}
      (hid : str? (get? data "action_id") = some actionId)
      (hstatus : str? (get? data "status") = some "executed")
      (hchannel : str? (get? data "channel") = some channel)
      (hdecided : str? (get? data "decided_by") = some decidedBy) (hknown : decidedBy ∈ validDecidedBy)
      (hreference : str? (get? data "reference") = some reference) (hne : reference ≠ "") :
      Answers data actionId (.executed channel decidedBy reference)
  | failed (hid : str? (get? data "action_id") = some actionId)
      (hstatus : str? (get? data "status") = some "failed") :
      Answers data actionId (.failed (str? (get? data "channel")) (str? (get? data "decided_by"))
        (str? (get? data "reference")))

section
variable (loads : List UInt8 → Except PyExc Json) (actionId : String)

/-- `_parse_ok_body` returns, and what it returns is the answer in the body, or `None` for no answer. -/
def ParsesExactly (body : List UInt8) : Prop :=
  ∃ o, parseOkBody loads body actionId = .ok o ∧
    ∀ r, o = some r ↔ ∃ data, loads body = .ok (.obj data) ∧ Answers data actionId r

/-- The values that `_parse_ok_body` looks up in a set can be. -/
def LooksUp (data : List (String × Json)) : Prop :=
  str? (get? data "action_id") = some actionId →
    Hashable (get? data "status") ∧
    (str? (get? data "status") = some "executed" → (str? (get? data "channel")).isSome →
      Hashable (get? data "decided_by"))

/-- `json.loads` raises no exception that `_parse_ok_body` lets through, and neither does a set. -/
def BodyReadable (body : List UInt8) : Prop :=
  (∀ e, loads body = .error e → e = .jsonDecodeError ∨ e = .unicodeDecodeError) ∧
    ∀ data, loads body = .ok (.obj data) → LooksUp actionId data

/-- The body of an error response can be read, and the parser can read the body of a 200. -/
def Attempt.Readable (o : Attempt) : Prop :=
  ¬ o.posted.escapes ∧ ∀ body, o.posted.Brings 200 body → BodyReadable loads actionId (bytesRead 200 body)

/-- So it is in every attempt that is made. -/
def HandoffReadable (first second : Attempt) : Prop :=
  ∀ o, Made first second o → o.Readable loads actionId

variable {loads actionId} {data : List (String × Json)} {body : List UInt8} {first second : Attempt}
  {channel decidedBy reference : Option Json}

/-! ### The parser -/

theorem parseExecuted_of_hashable (reference : Option Json) (h : (str? channel).isSome → Hashable decidedBy) :
    ∃ o, parseExecuted channel decidedBy reference = .ok o ∧
      ∀ r, o = some r ↔ ∃ c d ref, str? channel = some c ∧ str? decidedBy = some d ∧
        d ∈ validDecidedBy ∧ str? reference = some ref ∧ ref ≠ "" ∧ r = .executed c d ref := by
  unfold parseExecuted
  cases hc : str? channel with
  | none => exact ⟨none, rfl, fun r => by simp⟩
  | some c =>
    have hhash := h (by rw [hc]; rfl)
    simp only [inSet_of_hashable hhash, bind, Except.bind]
    by_cases hin : ∃ s ∈ validDecidedBy, str? decidedBy = some s
    · obtain ⟨d, hd, hdec⟩ := hin
      rw [decide_eq_true ⟨d, hd, hdec⟩]
      simp only [Bool.not_true, Bool.false_eq_true, if_false, hdec]
      cases href : str? reference with
      | none => exact ⟨none, rfl, fun r => by simp⟩
      | some ref =>
        by_cases he : ref = ""
        · subst he
          exact ⟨none, rfl, fun r => by simp⟩
        · refine ⟨some (.executed c d ref), by simp [he]; rfl, fun r => ?_⟩
          simp only [Option.some.injEq, exists_and_left, exists_eq_left', hd, true_and]
          simp [he, eq_comm]
    · rw [decide_eq_false hin]
      refine ⟨none, rfl, fun r => ?_⟩
      simp only [reduceCtorEq, false_iff]
      rintro ⟨c', d, ref, -, hdec, hd, -⟩
      exact hin ⟨d, hd, hdec⟩

theorem parseExecuted_of_not_hashable (hc : (str? channel).isSome) (h : ¬ Hashable decidedBy) :
    parseExecuted channel decidedBy reference = .error .typeError := by
  obtain ⟨c, hc⟩ := Option.isSome_iff_exists.1 hc
  unfold parseExecuted
  rw [hc]
  simp only [inSet_of_not_hashable h]
  rfl

theorem parseObject_of_looksUp (h : LooksUp actionId data) :
    ∃ o, parseObject data actionId = .ok o ∧ ∀ r, o = some r ↔ Answers data actionId r := by
  unfold parseObject
  by_cases hid : str? (get? data "action_id") = some actionId
  · obtain ⟨hstatus, hdecided⟩ := h hid
    simp only [hid, ne_eq, not_true_eq_false, if_false, inSet_of_hashable hstatus, bind, Except.bind]
    by_cases hin : ∃ s ∈ validStatuses, str? (get? data "status") = some s
    · simp only [decide_eq_true hin, Bool.not_true, Bool.false_eq_true, if_false]
      by_cases hex : str? (get? data "status") = some "executed"
      · rw [if_pos hex]
        obtain ⟨o, ho, hiff⟩ := parseExecuted_of_hashable (get? data "reference") (hdecided hex)
        refine ⟨o, ho, fun r => (hiff r).trans ⟨?_, ?_⟩⟩
        · rintro ⟨c, d, ref, hc, hd, hknown, href, hne, rfl⟩
          exact .executed hid hex hc hd hknown href hne
        · rintro (⟨-, -, hc, hd, hknown, href, hne⟩ | ⟨-, hf⟩)
          · exact ⟨_, _, _, hc, hd, hknown, href, hne, rfl⟩
          · rw [hex] at hf; exact absurd (Option.some.inj hf) (by decide)
      · rw [if_neg hex]
        have hf : str? (get? data "status") = some "failed" := by
          obtain ⟨st, hst, heq⟩ := hin
          simp only [validStatuses, List.mem_cons, List.not_mem_nil, or_false] at hst
          rcases hst with rfl | rfl
          · exact absurd heq hex
          · exact heq
        refine ⟨_, rfl, fun r => ⟨?_, ?_⟩⟩
        · rintro ⟨⟩
          exact .failed hid hf
        · rintro (⟨-, hst, -⟩ | -)
          · exact absurd hst hex
          · rfl
    · simp only [decide_eq_false hin, Bool.not_false, if_true]
      refine ⟨none, rfl, fun r => ⟨?_, ?_⟩⟩
      · rintro ⟨⟩
      · rintro (⟨-, hst, -⟩ | ⟨-, hst⟩)
        · exact absurd ⟨_, by decide, hst⟩ hin
        · exact absurd ⟨_, by decide, hst⟩ hin
  · simp only [ne_eq, hid, not_false_eq_true, if_true]
    refine ⟨none, rfl, fun r => ⟨?_, ?_⟩⟩
    · rintro ⟨⟩
    · rintro (⟨hid', -⟩ | ⟨hid', -⟩)
      · exact absurd hid' hid
      · exact absurd hid' hid

theorem parseObject_of_not_looksUp (h : ¬ LooksUp actionId data) :
    parseObject data actionId = .error .typeError := by
  obtain ⟨hid, h⟩ := Classical.not_imp.1 h
  unfold parseObject
  simp only [hid, ne_eq, not_true_eq_false, if_false]
  by_cases hstatus : Hashable (get? data "status")
  · obtain ⟨hex, hdecided⟩ := Classical.not_imp.1 fun hb => h ⟨hstatus, hb⟩
    obtain ⟨hc, hdecided⟩ := Classical.not_imp.1 hdecided
    have hin : ∃ s ∈ validStatuses, str? (get? data "status") = some s := ⟨_, by decide, hex⟩
    simp only [inSet_of_hashable hstatus, decide_eq_true hin, bind, Except.bind, Bool.not_true,
      Bool.false_eq_true, if_false, if_pos hex]
    exact parseExecuted_of_not_hashable hc hdecided
  · rw [inSet_of_not_hashable hstatus]
    rfl

theorem parseOkBody_of_obj (h : loads body = .ok (.obj data)) :
    parseOkBody loads body actionId = parseObject data actionId := by
  rw [parseOkBody, h]

theorem parseOkBody_of_not_obj (h : ∀ data, loads body ≠ .ok (.obj data))
    (he : ∀ e, loads body = .error e → e = .jsonDecodeError ∨ e = .unicodeDecodeError) :
    parseOkBody loads body actionId = .ok none := by
  unfold parseOkBody
  split
  · rfl
  · rfl
  · rename_i e hj hu hl
    rcases he e hl with rfl | rfl
    · exact absurd rfl hj
    · exact absurd rfl hu
  · rename_i data hl
    exact absurd hl (h data)
  · rfl

theorem parseOkBody_of_error {e : PyExc} (h : loads body = .error e)
    (he : ¬ (e = .jsonDecodeError ∨ e = .unicodeDecodeError)) :
    parseOkBody loads body actionId = .error e := by
  rw [parseOkBody, h]
  cases e <;> first | rfl | exact absurd (by decide) he

theorem parseOkBody_of_not_readable (h : ¬ BodyReadable loads actionId body) :
    ∃ e, parseOkBody loads body actionId = .error e := by
  rcases Classical.not_and_iff_not_or_not.1 h with h | h
  · obtain ⟨e, h⟩ := not_forall.1 h
    obtain ⟨hl, he⟩ := Classical.not_imp.1 h
    exact ⟨e, parseOkBody_of_error hl he⟩
  · obtain ⟨data, h⟩ := not_forall.1 h
    obtain ⟨hl, hlook⟩ := Classical.not_imp.1 h
    exact ⟨_, (parseOkBody_of_obj hl).trans (parseObject_of_not_looksUp hlook)⟩

theorem parsesExactly_of_readable (h : BodyReadable loads actionId body) :
    ParsesExactly loads actionId body := by
  obtain ⟨he, hlook⟩ := h
  by_cases hobj : ∃ data, loads body = .ok (.obj data)
  · obtain ⟨data, hl⟩ := hobj
    obtain ⟨o, ho, hiff⟩ := parseObject_of_looksUp (hlook data hl)
    refine ⟨o, (parseOkBody_of_obj hl).trans ho, fun r => (hiff r).trans ⟨fun h => ⟨data, hl, h⟩, ?_⟩⟩
    rintro ⟨data', hl', h⟩
    rw [hl] at hl'
    cases hl'
    exact h
  · refine ⟨none, parseOkBody_of_not_obj (fun data hl => hobj ⟨data, hl⟩) he, fun r => ⟨?_, ?_⟩⟩
    · rintro ⟨⟩
    · rintro ⟨data, hl, -⟩
      exact absurd ⟨data, hl⟩ hobj

theorem parsesExactly_iff : ParsesExactly loads actionId body ↔ BodyReadable loads actionId body := by
  refine ⟨fun ⟨o, ho, _⟩ => by_contra fun h => ?_, parsesExactly_of_readable⟩
  obtain ⟨e, he⟩ := parseOkBody_of_not_readable h
  rw [ho] at he
  cases he

/-! ### The handoff -/

theorem verdict_of_ne {status : ℕ} (h : status ≠ 200) :
    verdict loads actionId (.response, status, body) = .ok .down := if_pos h

theorem verdict_of_readable (h : BodyReadable loads actionId body) :
    ∃ r, verdict loads actionId (.response, 200, body) = .ok r := by
  obtain ⟨o, ho, -⟩ := parsesExactly_of_readable h
  simp only [verdict, ne_eq, not_true_eq_false, if_false, ho, bind, Except.bind]
  cases o <;> exact ⟨_, rfl⟩

theorem verdict_of_not_readable (h : ¬ BodyReadable loads actionId body) :
    ∃ e, verdict loads actionId (.response, 200, body) = .error e := by
  obtain ⟨e, he⟩ := parseOkBody_of_not_readable h
  simp only [verdict, ne_eq, not_true_eq_false, if_false, he, bind, Except.bind]
  exact ⟨_, rfl⟩

theorem readable_of_no_body {o : Attempt} (hesc : ¬ o.posted.escapes) (h : ∀ body, ¬ o.posted.Brings 200 body) :
    o.Readable loads actionId := ⟨hesc, fun body hb => absurd hb (h body)⟩

theorem readable_of_timesOut {o : Attempt} (h : o.posted.timesOut) : o.Readable loads actionId :=
  readable_of_no_body (fun hesc => Attempt.not_timesOut_of_escapes hesc h) fun _ hb =>
    Attempt.not_timesOut_of_brings hb h

theorem postAction_verdict_iff (o : Attempt) :
    (∃ r, (postAction o >>= verdict loads actionId) = .ok r) ↔ o.Readable loads actionId := by
  rw [← Attempt.postAction_posted]
  rcases o.kinds with hesc | ht | hl | href | ⟨status, body, hb⟩
  · obtain ⟨e, he⟩ := Attempt.postAction_escapes hesc
    rw [he]
    constructor
    · rintro ⟨r, hr⟩
      cases hr
    · exact fun h => absurd hesc h.1
  · rw [Attempt.postAction_timesOut ht]
    exact iff_of_true ⟨_, rfl⟩ (readable_of_timesOut ht)
  · rw [Attempt.postAction_lost hl]
    refine iff_of_true ⟨_, rfl⟩ (readable_of_no_body (Attempt.not_escapes_of_lost hl) fun body hb => ?_)
    exact Attempt.not_lost_of_brings hb hl
  · refine iff_of_true ⟨.down, by rw [href]; rfl⟩ (readable_of_no_body (by rw [href]; exact id) fun body hb => ?_)
    rw [href] at hb
    cases hb
  · rw [Attempt.postAction_brings hb]
    have hesc : ¬ o.posted.escapes := Attempt.not_escapes_of_brings hb
    by_cases hst : status = 200
    · subst hst
      constructor
      · rintro ⟨r, hr⟩
        refine ⟨hesc, fun body' hb' => by_contra fun h => ?_⟩
        obtain ⟨-, rfl⟩ := Attempt.brings_unique hb hb'
        obtain ⟨e, he⟩ := verdict_of_not_readable h
        exact absurd (he.symm.trans hr) (by rintro ⟨⟩)
      · exact fun h => verdict_of_readable (h.2 body hb)
    · refine iff_of_true ⟨_, verdict_of_ne hst⟩ (readable_of_no_body hesc fun body' hb' => ?_)
      exact hst (Attempt.brings_unique hb hb').1

/-- `execute_handoff` returns on exactly the attempts that can be read. -/
theorem executeHandoff_returns_iff :
    (∃ r, executeHandoff loads actionId first second = .ok r) ↔
      HandoffReadable loads actionId first second := by
  by_cases ht : first.posted.timesOut
  · rw [executeHandoff_of_timesOut ht, postAction_verdict_iff]
    constructor
    · rintro h o (rfl | ⟨-, rfl⟩)
      · exact readable_of_timesOut ht
      · exact h
    · exact fun h => h second (.inr ⟨ht, rfl⟩)
  · rw [executeHandoff_of_not_timesOut ht, postAction_verdict_iff]
    constructor
    · rintro h o (rfl | ⟨h', -⟩)
      · exact h
      · exact absurd h' ht
    · exact fun h => h first (.inl rfl)

end

end Embassy
