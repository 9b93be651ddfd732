import Embassy.Tier3Store

/-!
# When a handoff's verdict is safe to release the budget on

`down` and `failed` release the reservation. An attempt that went out and got no refusal may have
been executed, so `HandoffSafe` asks that no such attempt ends in `down`, nor in `failed` unless the
agent said so itself. The code keeps this exactly in `HandoffClear`, on whatever is taken for a well-formed
refusal: the attempt that decides is not `Misread`, or it hides no execution.
-/

namespace Embassy

namespace Attempt

/-- The request went out. -/
def sent : Attempt → Prop
  | refused | connectTimeout => False
  | _ => True

/-- The agent answered, with a status other than 200 and as it refuses. -/
def refusal (wellFormed : ℕ → List UInt8 → Prop) : Attempt → Prop
  | response status body => status ≠ 200 ∧ wellFormed status body
  | redirect code _ body _ => wellFormed code.status body
  | _ => False

/-- The agent may have started executing the action. -/
def mayExecute (wellFormed : ℕ → List UInt8 → Prop) (o : Attempt) : Prop := o.sent ∧ ¬ o.refusal wellFormed

/-- `_post_action` reports a timeout, so there is a retry. -/
def timesOut : Attempt → Prop
  | connectTimeout => True
  | timeout phase => ¬ escapes (timeout phase)
  | _ => False

/-- The connection was dropped after the request went out, and `_post_action` takes it for a refused
one. -/
def lost : Attempt → Prop
  | dropped phase => ¬ escapes (dropped phase)
  | _ => False

/-- `_post_action` gets a response with this body, or what came of it. -/
inductive Brings : Attempt → ℕ → List UInt8 → Prop
  | response (status : ℕ) (body : List UInt8) : Brings (response status body) status body
  | closed {status : ℕ} (body : List UInt8) (hok : 200 ≤ status ∧ status < 300) : Brings (closed status body) status body

def redirected : Attempt → Prop
  | redirect .. => True
  | _ => False

/-- What comes of the last request, where the first is a `POST`. -/
def posted (o : Attempt) : Attempt := o.final .post []

variable {o : Attempt} {status : ℕ} {body : List UInt8}

theorem posted_of_not_redirected (h : ¬ o.redirected) : o.posted = o :=
  final_of_ne_redirect fun _ _ _ _ ho => h (ho ▸ trivial)

theorem not_redirected_of_brings (h : o.Brings status body) : ¬ o.redirected := by
  cases h <;> exact id

/-! ### What `_post_action` makes of each kind of attempt -/

theorem postAction_posted (o : Attempt) : postAction o.posted = postAction o := by
  rw [postAction, posted, urlopen_final]
  rfl

theorem postAction_escapes (h : o.escapes) : ∃ e, postAction o = .error e := by
  match o with
  | timeout (.reading status) | dropped (.reading status) | closed status _ =>
    have h : ¬ (200 ≤ status ∧ status < 300) := h
    exact ⟨_, by simp only [postAction, urlopen, Opened.ofReply, h, if_false]; rfl⟩

theorem postAction_timesOut (h : o.timesOut) : postAction o = .ok (.timeout, 0, []) := by
  match o with
  | connectTimeout | timeout .sending | timeout .waiting => rfl
  | timeout (.reading status) =>
    have h : 200 ≤ status ∧ status < 300 := not_not.1 h
    simp only [postAction, urlopen, Opened.ofReply, h, and_self, if_true]; rfl

theorem postAction_lost (h : o.lost) : postAction o = .ok (.down, 0, []) := by
  match o with
  | dropped .sending | dropped .waiting => rfl
  | dropped (.reading status) =>
    have h : 200 ≤ status ∧ status < 300 := not_not.1 h
    simp only [postAction, urlopen, Opened.ofReply, h, and_self, if_true]; rfl

/-- The bytes of a body that `_post_action` reads. -/
def bytesRead (status : ℕ) (body : List UInt8) : List UInt8 :=
  if 200 ≤ status ∧ status < 300 then body.take maxResponseBytes else body

theorem postAction_brings (h : o.Brings status body) :
    postAction o = .ok (.response, status, bytesRead status body) := by
  cases h with
  | response =>
    by_cases h : 200 ≤ status ∧ status < 300
    · simp only [postAction, urlopen, Opened.ofReply, bytesRead, h, and_self, if_true]; rfl
    · simp only [postAction, urlopen, Opened.ofReply, bytesRead, h, if_false]; rfl
  | closed _ hok => simp only [postAction, urlopen, Opened.ofReply, bytesRead, hok, and_self, if_true]; rfl

theorem postAction_response (status : ℕ) (body : List UInt8) :
    postAction (.response status body) = .ok (.response, status, bytesRead status body) :=
  postAction_brings (.response status body)

theorem kinds (o : Attempt) : o.posted.escapes ∨ o.posted.timesOut ∨ o.posted.lost ∨ o.posted = refused ∨
    ∃ status body, o.posted.Brings status body := by
  have hne := final_ne_redirect .post [] o
  change ∀ code url body next, o.posted ≠ _ at hne
  generalize o.posted = o at hne ⊢
  cases o with
  | refused => exact .inr (.inr (.inr (.inl rfl)))
  | connectTimeout => exact .inr (.inl trivial)
  | timeout phase =>
    by_cases h : escapes (timeout phase)
    · exact .inl h
    · exact .inr (.inl h)
  | dropped phase =>
    by_cases h : escapes (dropped phase)
    · exact .inl h
    · exact .inr (.inr (.inl h))
  | closed status body =>
    by_cases h : escapes (closed status body)
    · exact .inl h
    · exact .inr (.inr (.inr (.inr ⟨status, body, .closed body (not_not.1 h)⟩)))
  | response status body => exact .inr (.inr (.inr (.inr ⟨status, body, .response status body⟩)))
  | redirect code url body next => exact absurd rfl (hne code url body next)

theorem not_timesOut_of_lost (h : o.lost) : ¬ o.timesOut := by
  cases o <;> first | exact id | exact absurd h id

theorem not_timesOut_of_brings (h : o.Brings status body) : ¬ o.timesOut := by
  cases h <;> exact id

theorem not_timesOut_of_escapes (h : o.escapes) : ¬ o.timesOut := by
  cases o with
  | timeout => exact fun ht => ht h
  | connectTimeout => exact absurd h id
  | _ => exact id

theorem not_escapes_of_lost (h : o.lost) : ¬ o.escapes := by
  cases o <;> first | exact h | exact h.elim

theorem not_lost_of_brings (h : o.Brings status body) : ¬ o.lost := by
  cases h <;> exact id

theorem not_escapes_of_brings (h : o.Brings status body) : ¬ o.escapes := by
  cases h with
  | response => exact id
  | closed _ hok => exact not_not.2 hok

theorem eq_response_of_brings (h : o.Brings status body) (hne : ¬ (200 ≤ status ∧ status < 300)) :
    o = response status body := by
  cases h with
  | response => rfl
  | closed _ hok => exact absurd hok hne

theorem brings_unique {status' : ℕ} {body' : List UInt8} (h : o.Brings status body) (h' : o.Brings status' body') :
    status = status' ∧ body = body' := by
  cases h <;> cases h' <;> exact ⟨rfl, rfl⟩

end Attempt

section
variable (wellFormed : ℕ → List UInt8 → Prop) (loads : List UInt8 → Except PyExc Json) (actionId : String)
  (first second : Attempt)

/-- An attempt that `execute_handoff` makes. -/
def Made (o : Attempt) : Prop := o = first ∨ first.posted.timesOut ∧ o = second

/-- The attempt whose outcome is the verdict. -/
def Decides (o : Attempt) : Prop := first.posted.timesOut ∧ o = second ∨ ¬ first.posted.timesOut ∧ o = first

/-- The action may have been executed in some attempt. The agent answers a retry with the original
outcome, so a retry that it refuses says that the first attempt was refused too. -/
def MayHaveExecuted : Prop :=
  (∃ o, Made first second o ∧ o.mayExecute wellFormed) ∧ ¬ (first.posted.timesOut ∧ second.refusal wellFormed)

/-- The body says "failed", for this action. -/
def SaysFailed (body : List UInt8) : Prop :=
  ∃ data, loads (Attempt.bytesRead 200 body) = .ok (.obj data) ∧
    Json.str? (Json.get? data "action_id") = some actionId ∧ Json.str? (Json.get? data "status") = some "failed"

/-- The agent itself answered 200, for this action, with status "failed". -/
def AgentSaidFailed : Prop := ∃ o body, Made first second o ∧ o.Brings 200 body ∧ SaysFailed loads actionId body

/-- Where the action may have been executed, the verdict is not "down", and it is "failed" (and the
reservation is settled to "rejected") only when the agent said so. -/
def HandoffSafe : Prop :=
  MayHaveExecuted wellFormed first second → ∀ r, executeHandoff loads actionId first second = .ok r →
    r ≠ .down ∧
    ((∃ channel decidedBy reference, r = .failed channel decidedBy reference) →
      AgentSaidFailed loads actionId first second) ∧
    ∀ approvedByHuman, (settlement approvedByHuman r).outcome = .rejected →
      AgentSaidFailed loads actionId first second

/-- The connection is lost after the request went out or refused, the answer has a status other than 200, or
another server's answer says "failed". -/
inductive Misread (o : Attempt) : Prop
  | lost (h : o.posted.lost)
  | refused (h : o.posted = .refused)
  | other {status : ℕ} {body : List UInt8} (h : o.posted.Brings status body) (hne : status ≠ 200)
  | elsewhere {body : List UInt8} (h : o.posted.Brings 200 body) (hr : o.redirected)
      (hfailed : SaysFailed loads actionId body)

/-- An attempt that decides and is misread was refused by the agent, or was not sent after a timeout that may
hide an execution. -/
def HandoffClear : Prop :=
  ∀ o, Decides first second o → Misread loads actionId o →
    o.refusal wellFormed ∨ ¬ o.sent ∧ ¬ (first.posted.timesOut ∧ first.mayExecute wellFormed)

variable {wellFormed loads actionId first second} {o : Attempt}

/-! ### The verdict -/

theorem exists_decides (first second : Attempt) : ∃ o, Decides first second o := by
  by_cases h : first.posted.timesOut
  · exact ⟨second, .inl ⟨h, rfl⟩⟩
  · exact ⟨first, .inr ⟨h, rfl⟩⟩

theorem Decides.made (h : Decides first second o) : Made first second o := by
  obtain ⟨ht, rfl⟩ | ⟨-, rfl⟩ := h
  · exact .inr ⟨ht, rfl⟩
  · exact .inl rfl

theorem executeHandoff_of_timesOut (h : first.posted.timesOut) :
    executeHandoff loads actionId first second = postAction second >>= verdict loads actionId := by
  simp only [executeHandoff, ← Attempt.postAction_posted first, Attempt.postAction_timesOut h]
  rfl

theorem executeHandoff_of_ok {t : Transport} {status : ℕ} {body : List UInt8} (ht : t ≠ .timeout)
    (h : postAction first = .ok (t, status, body)) :
    executeHandoff loads actionId first second = verdict loads actionId (t, status, body) := by
  rw [executeHandoff, h]
  exact if_neg ht

theorem executeHandoff_of_not_timesOut (h : ¬ first.posted.timesOut) :
    executeHandoff loads actionId first second = postAction first >>= verdict loads actionId := by
  have hp := Attempt.postAction_posted first
  rcases first.kinds with hesc | ht | hl | hr | ⟨status, body, hb⟩
  · obtain ⟨e, he⟩ := Attempt.postAction_escapes hesc
    rw [executeHandoff, ← hp, he]
    rfl
  · exact absurd ht h
  · rw [Attempt.postAction_lost hl] at hp
    rw [executeHandoff_of_ok (by decide) hp.symm, ← hp]
    rfl
  · rw [hr] at hp
    rw [executeHandoff_of_ok (by decide) hp.symm, ← hp]
    rfl
  · rw [Attempt.postAction_brings hb] at hp
    rw [executeHandoff_of_ok (by decide) hp.symm, ← hp]
    rfl

theorem executeHandoff_of_decides (h : Decides first second o) :
    executeHandoff loads actionId first second = postAction o.posted >>= verdict loads actionId := by
  rw [Attempt.postAction_posted]
  obtain ⟨ht, rfl⟩ | ⟨ht, rfl⟩ := h
  · exact executeHandoff_of_timesOut ht
  · exact executeHandoff_of_not_timesOut ht

/-- The verdict the parser gives: "executed", or "failed" when the status says so. -/
def Parsed (data : List (String × Json)) (r : HandoffResult) : Prop :=
  (∃ channel decidedBy reference, r = .executed channel decidedBy reference) ∨
  (∃ channel decidedBy reference, r = .failed channel decidedBy reference) ∧
    Json.str? (Json.get? data "status") = some "failed"

theorem parseExecuted_ok {channel decidedBy reference : Option Json} {r : HandoffResult}
    (h : parseExecuted channel decidedBy reference = .ok (some r)) :
    ∃ channel decidedBy reference, r = .executed channel decidedBy reference := by
  unfold parseExecuted at h
  split at h
  · cases h
  · cases hin : Json.inSet validDecidedBy decidedBy with
    | error e => rw [hin] at h; cases h
    | ok b =>
      rw [hin] at h
      cases b with
      | false => cases h
      | true =>
        simp only [bind, Except.bind, Bool.not_true, Bool.false_eq_true, if_false] at h
        split at h
        · split at h
          · cases h
          · cases h; exact ⟨_, _, _, rfl⟩
        · cases h

theorem parseObject_ok {data : List (String × Json)} {r : HandoffResult}
    (h : parseObject data actionId = .ok (some r)) :
    Json.str? (Json.get? data "action_id") = some actionId ∧ Parsed data r := by
  unfold parseObject at h
  simp only at h
  split at h
  · cases h
  rename_i hid
  refine ⟨not_not.1 hid, ?_⟩
  cases hst : Json.get? data "status" with
  | none => rw [hst] at h; cases h
  | some v =>
    rw [hst] at h
    cases v with
    | str st =>
      by_cases hex : st = "executed"
      · subst hex
        exact .inl (parseExecuted_ok h)
      · by_cases hf : st = "failed"
        · subst hf
          cases h
          exact .inr ⟨⟨_, _, _, rfl⟩, by rw [hst]; rfl⟩
        · simp only [Json.inSet, validStatuses, List.mem_cons, hex, hf, List.not_mem_nil, or_self,
            decide_false] at h
          cases h
    | _ => cases h

theorem parseOkBody_ok {body : List UInt8} {r : HandoffResult}
    (h : parseOkBody loads body actionId = .ok (some r)) :
    ∃ data, loads body = .ok (.obj data) ∧
      Json.str? (Json.get? data "action_id") = some actionId ∧ Parsed data r := by
  unfold parseOkBody at h
  split at h
  · cases h
  · cases h
  · cases h
  · exact ⟨_, ‹_›, parseObject_ok h⟩
  · cases h

/-- The verdict on a 200 response: "unknown", or what the parser made of the body. -/
theorem verdict_ok {body : List UInt8} {r : HandoffResult}
    (h : verdict loads actionId (.response, 200, body) = .ok r) :
    r = .unknown ∨ ∃ data, loads body = .ok (.obj data) ∧
      Json.str? (Json.get? data "action_id") = some actionId ∧ Parsed data r := by
  simp only [verdict, ne_eq, not_true_eq_false, if_false] at h
  cases hp : parseOkBody loads body actionId with
  | error e => rw [hp] at h; cases h
  | ok o =>
    rw [hp] at h
    cases o with
    | none => cases h; exact .inl rfl
    | some r' => cases h; exact .inr (parseOkBody_ok hp)

theorem settlement_rejected {approvedByHuman : Bool} {r : HandoffResult}
    (h : (settlement approvedByHuman r).outcome = .rejected) :
    r = .down ∨ ∃ channel decidedBy reference, r = .failed channel decidedBy reference := by
  cases r with
  | executed | unknown => cases h
  | failed c d ref => exact .inr ⟨c, d, ref, rfl⟩
  | down => exact .inl rfl

theorem verdict_of_saysFailed {body : List UInt8} (h : SaysFailed loads actionId body) :
    ∃ channel decidedBy reference,
      verdict loads actionId (.response, 200, Attempt.bytesRead 200 body) = .ok (.failed channel decidedBy reference) := by
  obtain ⟨data, hl, hid, hst⟩ := h
  have hstatus : Json.get? data "status" = some (.str "failed") := by
    rcases hg : Json.get? data "status" with _ | _ | _ | _ | st | _ | _ <;> rw [hg] at hst <;> cases hst
    rfl
  have hparse : ∃ channel decidedBy reference,
      parseObject data actionId = .ok (some (.failed channel decidedBy reference)) := by
    unfold parseObject
    simp only [hid, hstatus, ne_eq, not_true_eq_false, if_false]
    exact ⟨_, _, _, rfl⟩
  obtain ⟨c, d, ref, hparse⟩ := hparse
  refine ⟨c, d, ref, ?_⟩
  simp only [verdict, ne_eq, not_true_eq_false, if_false, parseOkBody, hl, hparse]
  rfl

/-- A 200 gives a safe verdict, unless another server says "failed". -/
theorem safe_of_brings {body : List UInt8} {r : HandoffResult} (hm : Made first second o) (hb : o.posted.Brings 200 body)
    (hmis : ¬ Misread loads actionId o)
    (h : verdict loads actionId (.response, 200, Attempt.bytesRead 200 body) = .ok r) :
    r ≠ .down ∧
    ((∃ channel decidedBy reference, r = .failed channel decidedBy reference) →
      AgentSaidFailed loads actionId first second) ∧
    ∀ approvedByHuman, (settlement approvedByHuman r).outcome = .rejected →
      AgentSaidFailed loads actionId first second := by
  have hparsed := verdict_ok h
  have hdown : r ≠ .down := by
    rintro rfl
    rcases hparsed with h | ⟨_, -, -, ⟨_, _, _, h⟩ | ⟨⟨_, _, _, h⟩, -⟩⟩ <;> cases h
  have hfailed : (∃ channel decidedBy reference, r = .failed channel decidedBy reference) →
      AgentSaidFailed loads actionId first second := by
    rintro ⟨_, _, _, rfl⟩
    rcases hparsed with h | ⟨data, hl, hid, ⟨_, _, _, h⟩ | ⟨-, hst⟩⟩
    · cases h
    · cases h
    · have hsays : SaysFailed loads actionId body := ⟨data, hl, hid, hst⟩
      by_cases hr : o.redirected
      · exact absurd (.elsewhere hb hr hsays) hmis
      · exact ⟨o, body, hm, Attempt.posted_of_not_redirected hr ▸ hb, hsays⟩
  exact ⟨hdown, hfailed, fun _ hr => hfailed ((settlement_rejected hr).resolve_left hdown)⟩

/-- A clear pair misreads no attempt that may hide an execution. -/
theorem handoffClear_iff : HandoffClear wellFormed loads actionId first second ↔
    (MayHaveExecuted wellFormed first second → ∀ o, Decides first second o → ¬ Misread loads actionId o) := by
  constructor
  · rintro h ⟨⟨o', hmade, hsent, hno⟩, hnot⟩ o hd hmis
    have hclear := h o hd hmis
    obtain ⟨ht, rfl⟩ | ⟨ht, rfl⟩ := hd
    · rcases hclear with href | ⟨hunsent, hfirst⟩
      · exact hnot ⟨ht, href⟩
      · rcases hmade with rfl | ⟨-, rfl⟩
        · exact hfirst ⟨ht, hsent, hno⟩
        · exact hunsent hsent
    · obtain rfl : o' = o := hmade.resolve_right fun h => ht h.1
      exact hclear.elim hno fun h => h.1 hsent
  · intro h o hd hmis
    by_contra hclear
    rw [not_or, not_and_or, not_not, not_not] at hclear
    obtain ⟨hno, hhides⟩ := hclear
    refine h ⟨?_, ?_⟩ o hd hmis
    · rcases hhides with hsent | ⟨-, hmay⟩
      · exact ⟨o, hd.made, hsent, hno⟩
      · exact ⟨first, .inl rfl, hmay⟩
    · rintro ⟨ht, href⟩
      obtain ⟨-, rfl⟩ | ⟨hnt, -⟩ := hd
      · exact hno href
      · exact hnt ht

/-- A misread attempt gives "down", or the other server's "failed". -/
theorem verdict_of_misread (h : Misread loads actionId o) :
    (postAction o.posted >>= verdict loads actionId) = .ok .down ∨ o.redirected ∧ ∃ channel decidedBy reference,
      (postAction o.posted >>= verdict loads actionId) = .ok (.failed channel decidedBy reference) := by
  cases h with
  | lost h => exact .inl (by rw [Attempt.postAction_lost h]; rfl)
  | refused h => exact .inl (by rw [h]; rfl)
  | other h hne => exact .inl (by rw [Attempt.postAction_brings h]; exact if_pos hne)
  | elsewhere h hr hfailed =>
    rw [Attempt.postAction_brings h]
    exact .inr ⟨hr, verdict_of_saysFailed hfailed⟩

/-- The code is safe on exactly the clear pairs of attempts, whatever `json.loads` makes of a body and whatever
counts as a refusal. -/
theorem handoffSafe_iff (wellFormed : ℕ → List UInt8 → Prop) (loads : List UInt8 → Except PyExc Json)
    (actionId : String) (first second : Attempt) :
    HandoffSafe wellFormed loads actionId first second ↔ HandoffClear wellFormed loads actionId first second := by
  rw [handoffClear_iff]
  constructor
  · intro h hmay o hd hmis
    rcases verdict_of_misread hmis with hdown | ⟨hr, c, d, ref, hfailed⟩
    · exact (h hmay _ ((executeHandoff_of_decides hd).trans hdown)).1 rfl
    · -- the agent itself brought no 200: its answer redirects, or it is the first, which timed out
      obtain ⟨o', body, hmade, hb, -⟩ :=
        (h hmay _ ((executeHandoff_of_decides hd).trans hfailed)).2.1 ⟨c, d, ref, rfl⟩
      have hr' := Attempt.not_redirected_of_brings hb
      obtain ⟨ht, rfl⟩ | ⟨ht, rfl⟩ := hd
      · rcases hmade with rfl | ⟨-, rfl⟩
        · rw [Attempt.posted_of_not_redirected hr'] at ht
          exact Attempt.not_timesOut_of_brings hb ht
        · exact hr' hr
      · obtain rfl : o' = o := hmade.resolve_right fun h => ht h.1
        exact hr' hr
  · intro h hmay r hr
    obtain ⟨o, hd⟩ := exists_decides first second
    have hmis := h hmay o hd
    rw [executeHandoff_of_decides hd] at hr
    rcases o.kinds with hesc | ht | hl | href | ⟨status, body, hb⟩
    · obtain ⟨e, he⟩ := Attempt.postAction_escapes hesc
      rw [he] at hr
      cases hr
    · rw [Attempt.postAction_timesOut ht] at hr
      cases hr
      exact ⟨by decide, fun ⟨_, _, _, h⟩ => (by cases h), fun _ h => by cases h⟩
    · exact absurd (.lost hl) hmis
    · exact absurd (.refused href) hmis
    · obtain rfl : status = 200 := by_contra fun hne => hmis (.other hb hne)
      rw [Attempt.postAction_brings hb] at hr
      exact safe_of_brings hd.made hb hmis hr

end

/-- The budget of an action that may have been executed is released when the connection is reset
while waiting for the answer, whatever counts as a refusal. -/
theorem not_handoffSafe_dropped : ¬ ∃ wellFormed, ∀ loads actionId first second,
    HandoffSafe wellFormed loads actionId first second := by
  rintro ⟨wellFormed, h⟩
  have hmay : MayHaveExecuted wellFormed (.dropped .waiting) .refused :=
    ⟨⟨_, .inl rfl, trivial, id⟩, fun ht => ht.1⟩
  exact (h (fun _ => .error .jsonDecodeError) "act-1" _ _ hmay .down rfl).1 rfl

/-- The same when the retry after an ambiguous timeout is refused. -/
theorem not_handoffSafe_retry (wellFormed : ℕ → List UInt8 → Prop) (loads : List UInt8 → Except PyExc Json)
    (actionId : String) : ¬ HandoffSafe wellFormed loads actionId (.timeout .waiting) .refused :=
  fun h => (h ⟨⟨_, .inl rfl, trivial, id⟩, fun ht => ht.2⟩ .down rfl).1 rfl

end Embassy
