import Embassy.EnvelopeSchema
import Embassy.HandoffSafety
import Embassy.JsonObject

/-!
# Where the services' schemas agree

Field by field, what verify and `channels.execute` write passes the model that reads it
(`validateAction_handoffEnvelope`, `ChannelTakes`), with one exception: the admin UI accepts client ids of
up to 255 characters, and the agent and the ERP stub take 200 (`validateAction_of_long`).
-/

namespace Embassy
open Lib Json

namespace Json

/-! ### Fields that pass -/

variable {lo hi : ℕ} {s : String} {n : ℤ}

theorem strField_str (h : lo ≤ s.length ∧ s.length ≤ hi) : strField lo hi (some (.str s)) = some ⟨s, h⟩ :=
  dif_pos h

theorem strField_eq_none (h : hi < s.length) : strField lo hi (some (.str s)) = none :=
  dif_neg fun hs => absurd hs.2 (not_le.2 h)

theorem digitsVal_toDigits (n : ℕ) : digitsVal (Nat.toDigits 10 n) = n :=
  Nat.ofDigitChars_ten_toDigits

theorem all_isDigit_toDigits (n : ℕ) : (Nat.toDigits 10 n).all Char.isDigit = true :=
  List.all_eq_true.2 fun _ hc => Nat.isDigit_of_mem_toDigits (by decide) (by decide) hc

theorem intLiteral_toDigits (n : ℕ) : intLiteral (Nat.toDigits 10 n) = some (n : ℤ) := by
  have hne : Nat.toDigits 10 n ≠ [] := Nat.toDigits_ne_nil
  have hall := all_isDigit_toDigits n
  unfold intLiteral
  split
  · rename_i digits heq
    rw [heq] at hall
    simp at hall
  · rw [if_pos ⟨hne, hall⟩, digitsVal_toDigits]

theorem int?_ofInt (n : ℤ) : (ofInt n).int? = some n := by
  change intLiteral n.repr.toList = some n
  rw [Int.repr_eq_if]
  split
  · rename_i h
    rw [Nat.toList_repr, intLiteral_toDigits, Int.toNat_of_nonneg h]
  · rw [String.toList_append, Nat.toList_repr]
    change (if Nat.toDigits 10 (-n).toNat ≠ [] ∧ (Nat.toDigits 10 (-n).toNat).all Char.isDigit then
      some (-(digitsVal (Nat.toDigits 10 (-n).toNat) : ℤ)) else none) = some n
    rw [if_pos ⟨Nat.toDigits_ne_nil, all_isDigit_toDigits _⟩, digitsVal_toDigits,
      Int.toNat_of_nonneg (by omega), neg_neg]

theorem intField_ofInt (p : ℤ → Prop) [DecidablePred p] (h : p n) :
    intField p (some (ofInt n)) = some ⟨n, h⟩ := by
  unfold intField
  simp only [Option.bind_eq_bind, Option.bind_some, int?_ofInt]
  exact dif_pos h

end Json

namespace Agent

theorem Mode.ofJson_text (mode : Mode) : Mode.ofJson (some (.str mode.text)) = some mode := by
  cases mode <;> decide

section
variable {actionId clientId requestedAt : String} {body : Tier3OrderRequest} {mode : Mode}
  {limit used window : ℤ} {approvedBy : Option String}

theorem quantity_range_int (body : Tier3OrderRequest) :
    0 < (body.quantity : ℤ) ∧ (body.quantity : ℤ) ≤ 10000 := by
  have h := body.quantity_range
  omega

theorem amountCents_range_int (body : Tier3OrderRequest) :
    0 < (body.amountCents : ℤ) ∧ (body.amountCents : ℤ) ≤ 1000000 := by
  have h := body.amountCents_range
  omega

/-- The payload, as `OrderPayload` reads it. -/
def payloadOf (body : Tier3OrderRequest) : OrderPayload :=
  ⟨body.item, body.quantity, body.amountCents, body.item_length, quantity_range_int body,
    amountCents_range_int body⟩

theorem orderPayload_ofJson (body : Tier3OrderRequest) : OrderPayload.ofJson
    [("item", .str body.item), ("quantity", ofInt body.quantity), ("amount_cents", ofInt body.amountCents)] =
      some (payloadOf body) := by
  simp [OrderPayload.ofJson, strField_str body.item_length,
    intField_ofInt (fun n => 0 < n ∧ n ≤ 10000) (quantity_range_int body),
    intField_ofInt (fun n => 0 < n ∧ n ≤ 1000000) (amountCents_range_int body), payloadOf]

theorem optStrField_elim : optStrField (some (approvedBy.elim .null .str)) = some approvedBy := by
  cases approvedBy <;> rfl

theorem mandate_ofJson (mode : Mode) (approvedBy : Option String) (hlimit : 0 < limit) (hused : 0 ≤ used)
    (hwindow : 0 < window) :
    ∃ m, Mandate.ofJson (some (.obj
      [("mode", .str mode.text), ("weekly_limit_cents", ofInt limit), ("used_cents", ofInt used),
        ("remaining_cents", ofInt (max (limit - used) 0)), ("window_seconds", ofInt window),
        ("approved_by", approvedBy.elim .null .str)])) = some m := by
  have hremaining : 0 ≤ max (limit - used) 0 := le_max_right ..
  generalize max (limit - used) 0 = remaining at hremaining
  refine ⟨⟨mode, limit, used, remaining, window, approvedBy, hlimit, hused, hremaining, hwindow⟩, ?_⟩
  unfold Mandate.ofJson dictField
  simp only [Option.bind_eq_bind, Option.bind_some, get?_cons, get?_nil, String.reduceEq, if_true, if_false,
    Option.or_none, Option.or_some, Option.getD_none, Mode.ofJson_text, optStrField_elim]
  rw [intField_ofInt (0 < ·) hlimit, intField_ofInt (0 ≤ ·) hused, intField_ofInt (0 ≤ ·) hremaining,
    intField_ofInt (0 < ·) hwindow]
  rfl

/-- The agent takes every envelope whose client id is not too long for it. -/
theorem validateAction_handoffEnvelope (hlimit : 0 < limit) (hused : 0 ≤ used) (hwindow : 0 < window)
    (hid : 1 ≤ actionId.length ∧ actionId.length ≤ 64)
    (hclient : 1 ≤ clientId.length ∧ clientId.length ≤ 200) :
    ∃ a, validateAction (handoffEnvelope actionId clientId body mode limit used window requestedAt
      approvedBy) = some (a, payloadOf body) ∧ a.actionId = actionId ∧ a.clientId = clientId := by
  obtain ⟨m, hm⟩ := mandate_ofJson mode approvedBy hlimit hused hwindow
  have henvelope : ActionEnvelope.ofJson (handoffEnvelope actionId clientId body mode limit used window
      requestedAt approvedBy) = some ⟨actionId, "order.place", clientId, requestedAt,
        [("item", .str body.item), ("quantity", ofInt body.quantity),
          ("amount_cents", ofInt body.amountCents)], m, hid, rfl, hclient⟩ := by
    unfold ActionEnvelope.ofJson handoffEnvelope dictField
    simp only [Option.bind_eq_bind, Option.bind_some, get?_cons, get?_nil, String.reduceEq, if_true, if_false,
      Option.or_none, Option.or_some, Option.getD_none, hm]
    rw [strField_str hid, strField_str hclient]
    rfl
  unfold validateAction
  rw [henvelope]
  simp only [Option.bind_eq_bind, Option.bind_some, orderPayload_ofJson]
  exact ⟨_, rfl, rfl, rfl⟩

/-- And no other. -/
theorem validateAction_of_long (h : 200 < clientId.length) :
    validateAction (handoffEnvelope actionId clientId body mode limit used window requestedAt
      approvedBy) = none := by
  have henvelope : ActionEnvelope.ofJson (handoffEnvelope actionId clientId body mode limit used window
      requestedAt approvedBy) = none := by
    unfold ActionEnvelope.ofJson handoffEnvelope dictField
    simp only [Option.bind_eq_bind, Option.bind_some, get?_cons, get?_nil, String.reduceEq, if_true, if_false,
      Option.or_none, Option.or_some, Option.getD_none]
    rw [strField_eq_none h]
    simp only [Option.bind_none, Option.bind_fun_none]
  unfold validateAction
  rw [henvelope]
  rfl

end

theorem length_toString (s : String) : (toString s).length = s.length := rfl

theorem length_toString_le {n : ℤ} {k : ℕ} (hk : 0 < k) (h0 : 0 ≤ n) (h : n < 10 ^ k) :
    (toString n).length ≤ k := by
  rw [Int.toString_eq_repr, Int.repr_eq_if, if_pos h0, Nat.length_repr_le_iff hk]
  have hcast : ((n.toNat : ℕ) : ℤ) < ((10 ^ k : ℕ) : ℤ) := by
    rw [Int.toNat_of_nonneg h0]
    exact_mod_cast h
  exact_mod_cast hcast

theorem length_seconds_le (now : UnixTime) : (toString now.seconds).length ≤ 20 := by
  have hlt := now.seconds_lt
  rw [Int.toString_eq_repr, Int.repr_eq_if]
  split
  · have hlen : now.seconds.toNat.repr.length ≤ 19 := (Nat.length_repr_le_iff (by decide)).2 (by omega)
    omega
  · have hlen : (-now.seconds).toNat.repr.length ≤ 19 := (Nat.length_repr_le_iff (by decide)).2 (by omega)
    rw [String.length_append]
    have hsign : "-".length = 1 := rfl
    omega

theorem length_tokenHex (token : BitVec 32) : (tokenHex token).length = 8 := by
  simp [tokenHex]

theorem length_mintActionId (now : UnixTime) (token : BitVec 32) :
    1 ≤ (mintActionId now token).length ∧ (mintActionId now token).length ≤ 64 := by
  have hseconds := length_seconds_le now
  have htoken := length_tokenHex token
  have hact : (toString "act-").length = 4 := rfl
  have hdash : (toString "-").length = 1 := rfl
  unfold mintActionId
  simp only [String.length_append, hact, hdash, length_toString (tokenHex token)]
  omega

theorem length_euros_le (body : Tier3OrderRequest) : (euros body.amountCents).length ≤ 8 := by
  have h := body.amountCents_range
  have hwhole : (toString ((body.amountCents : ℤ) / 100)).length ≤ 5 :=
    length_toString_le (by decide) (by omega) (by omega)
  have htens : (toString ((body.amountCents : ℤ) / 10 % 10)).length ≤ 1 :=
    length_toString_le (by decide) (by omega) (by omega)
  have hones : (toString ((body.amountCents : ℤ) % 10)).length ≤ 1 :=
    length_toString_le (by decide) (by omega) (by omega)
  have hdot : (toString ".").length = 1 := rfl
  unfold euros
  simp only [String.length_append, hdot]
  omega

/-! ### The channels -/

section
variable {actionId clientId item text to_ subject body : String} {quantity amountCents : ℤ}

theorem erpOrder_ofJson (hid : 1 ≤ actionId.length ∧ actionId.length ≤ 64)
    (hclient : 1 ≤ clientId.length ∧ clientId.length ≤ 200) (hitem : 1 ≤ item.length ∧ item.length ≤ 200)
    (hquantity : 0 < quantity ∧ quantity ≤ 10000) (hamount : 0 < amountCents ∧ amountCents ≤ 1000000) :
    (Stubs.ErpOrder.ofJson (.obj
      [("action_id", .str actionId), ("client_id", .str clientId), ("item", .str item),
        ("quantity", ofInt quantity), ("amount_cents", ofInt amountCents)])).isSome := by
  unfold Stubs.ErpOrder.ofJson dictField
  simp only [Option.bind_eq_bind, Option.bind_some, get?_cons, get?_nil, String.reduceEq, if_true, if_false,
    Option.or_none, Option.or_some, Option.getD_none]
  rw [strField_str hid, strField_str hclient, strField_str hitem,
    intField_ofInt (fun n => 0 < n ∧ n ≤ 10000) hquantity,
    intField_ofInt (fun n => 0 < n ∧ n ≤ 1000000) hamount]
  rfl

theorem slackMessage_ofJson (hid : 1 ≤ actionId.length ∧ actionId.length ≤ 64)
    (htext : 1 ≤ text.length ∧ text.length ≤ 2000) :
    (Stubs.SlackMessage.ofJson (.obj [("action_id", .str actionId), ("text", .str text)])).isSome := by
  unfold Stubs.SlackMessage.ofJson dictField
  simp only [Option.bind_eq_bind, Option.bind_some, get?_cons, get?_nil, String.reduceEq, if_true, if_false,
    Option.or_none, Option.or_some, Option.getD_none]
  rw [strField_str hid, strField_str htext]
  rfl

theorem email_ofJson (hid : 1 ≤ actionId.length ∧ actionId.length ≤ 64)
    (hto : 1 ≤ to_.length ∧ to_.length ≤ 200) (hsubject : 1 ≤ subject.length ∧ subject.length ≤ 500)
    (hbody : 1 ≤ body.length ∧ body.length ≤ 5000) :
    (Stubs.Email.ofJson (.obj
      [("action_id", .str actionId), ("to", .str to_), ("subject", .str subject),
        ("body", .str body)])).isSome := by
  unfold Stubs.Email.ofJson dictField
  simp only [Option.bind_eq_bind, Option.bind_some, get?_cons, get?_nil, String.reduceEq, if_true, if_false,
    Option.or_none, Option.or_some, Option.getD_none]
  rw [strField_str hid, strField_str hto, strField_str hsubject, strField_str hbody]
  rfl

end

/-- The channels that `channels.execute` knows. -/
def channelNames : List String := ["mock_erp", "slack_stub", "email_stub"]

/-- The request made for the channel passes at its stub. -/
def ChannelTakes (channel actionId clientId item : String) (quantity amountCents : ℤ) : Prop :=
  ∃ path req, channelRequest channel actionId clientId item quantity amountCents = some (path, req) ∧
    Stubs.accepts path req = true

section
variable {actionId clientId : String} (body : Tier3OrderRequest)

theorem length_quantity_le : (toString (body.quantity : ℤ)).length ≤ 5 := by
  have h := body.quantity_range
  exact length_toString_le (by decide) (by omega) (by omega)

theorem mockErp_takes (hid : 1 ≤ actionId.length ∧ actionId.length ≤ 64)
    (hclient : 1 ≤ clientId.length ∧ clientId.length ≤ 200) :
    ChannelTakes "mock_erp" actionId clientId body.item body.quantity body.amountCents :=
  ⟨_, _, rfl, erpOrder_ofJson hid hclient body.item_length (quantity_range_int body)
    (amountCents_range_int body)⟩

theorem slackStub_takes (hid : 1 ≤ actionId.length ∧ actionId.length ≤ 64)
    (hclient : clientId.length ≤ 200) :
    ChannelTakes "slack_stub" actionId clientId body.item body.quantity body.amountCents := by
  have hitem := body.item_length
  have hquantity := length_quantity_le body
  have heuros := length_euros_le body
  have hpieces : (toString "Order ").length = 6 ∧ (toString " from ").length = 6 ∧
      (toString ": ").length = 2 ∧ (toString " x ").length = 3 ∧ (toString " ").length = 1 ∧
      (toString "for EUR ").length = 8 ∧ (toString " -- needs manual handling").length = 25 := by decide
  refine ⟨_, _, rfl, slackMessage_ofJson hid ?_⟩
  simp only [String.length_append, length_toString actionId, length_toString clientId,
    length_toString body.item, length_toString (euros body.amountCents)]
  omega

theorem emailStub_takes (hid : 1 ≤ actionId.length ∧ actionId.length ≤ 64)
    (hclient : clientId.length ≤ 200) :
    ChannelTakes "email_stub" actionId clientId body.item body.quantity body.amountCents := by
  have hitem := body.item_length
  have hquantity := length_quantity_le body
  have heuros := length_euros_le body
  have hpieces : (toString "Order ").length = 6 ∧ (toString " from ").length = 6 ∧
      (toString " x ").length = 3 ∧ (toString " for EUR ").length = 9 := by decide
  refine ⟨_, _, rfl, email_ofJson hid (by decide) ?_ ?_⟩
  · simp only [String.length_append, length_toString actionId, length_toString clientId]
    omega
  · simp only [String.length_append, length_toString body.item, length_toString (euros body.amountCents)]
    omega

end

/-- Every model on the way takes the order, and verify does not report the agent as unavailable. -/
structure SchemasAgree (actionId : String) (envelope : Json) : Prop where
  taken : ∃ a p, validateAction envelope = some (a, p) ∧
    ∀ channel ∈ channelNames, ChannelTakes channel a.actionId a.clientId p.item p.quantity p.amountCents
  available : ∀ loads body second,
    executeHandoff loads actionId (.response (actionStatus envelope) body) second ≠ .ok .down

/-- A 200 is never reported as unavailable. -/
theorem available_of_valid {actionId : String} {envelope : Json} (h : (validateAction envelope).isSome) :
    ∀ loads body second,
      executeHandoff loads actionId (.response (actionStatus envelope) body) second ≠ .ok .down := by
  intro loads body second hdown
  have hstatus : actionStatus envelope = 200 := if_pos h
  rw [hstatus, executeHandoff_of_ok (by decide) (Attempt.postAction_response 200 body)] at hdown
  rcases verdict_ok hdown with h | ⟨data, -, -, ⟨_, _, _, h⟩ | ⟨⟨_, _, _, h⟩, -⟩⟩ <;> cases h

theorem length_pos_of_accept {field clientId : String} (h : acceptClientId field = some clientId) :
    1 ≤ clientId.length := by
  unfold acceptClientId at h
  split at h
  · rename_i hmatch
    obtain rfl := Option.some.inj h
    obtain ⟨l, a, hl, hspans⟩ := Regex.isMatch_iff.1 hmatch
    obtain ⟨l₁, l₂, rfl, -, h₂⟩ := Regex.spans_seq.1 hspans
    obtain ⟨l₃, l₄, rfl, h₃, -⟩ := Regex.spans_seq.1 h₂
    obtain ⟨x, rfl, -⟩ := Regex.spans_set.1 h₃
    rw [← String.length_toList, hl]
    simp only [List.length_append, List.length_cons]
    omega
  · cases h

/-- An order of a client that the admin UI accepted passes every model on its way if and only if the
client id has at most 200 characters. -/
theorem schemasAgree_iff (field clientId : String) (hfield : acceptClientId field = some clientId)
    (body : Tier3OrderRequest) (mode : Mode) (limit used window : ℤ) (hlimit : 0 < limit)
    (hused : 0 ≤ used) (hwindow : 0 < window) (now : UnixTime) (token : BitVec 32) (requestedAt : String)
    (approvedBy : Option String) :
    SchemasAgree (mintActionId now token) (handoffEnvelope (mintActionId now token) clientId body mode
      limit used window requestedAt approvedBy) ↔ clientId.length ≤ 200 := by
  constructor
  · rintro ⟨⟨a, p, hvalid, -⟩, -⟩
    by_contra hlong
    rw [validateAction_of_long (not_le.1 hlong)] at hvalid
    cases hvalid
  · intro hle
    have hid := length_mintActionId now token
    have hclient : 1 ≤ clientId.length ∧ clientId.length ≤ 200 := ⟨length_pos_of_accept hfield, hle⟩
    obtain ⟨a, hvalid, haid, hacl⟩ := validateAction_handoffEnvelope hlimit hused hwindow hid hclient
    refine ⟨⟨a, payloadOf body, hvalid, fun channel hc => ?_⟩, available_of_valid (by rw [hvalid]; rfl)⟩
    rw [haid, hacl]
    simp only [channelNames, List.mem_cons, List.not_mem_nil, or_false] at hc
    rcases hc with rfl | rfl | rfl
    · exact mockErp_takes body hid hclient
    · exact slackStub_takes body hid hle
    · exact emailStub_takes body hid hle

theorem oneChair_item : 1 ≤ "chair".length ∧ "chair".length ≤ 200 := by decide

theorem oneChair_quantity : 0 < 1 ∧ 1 ≤ 10000 := by decide

theorem oneChair_amount : 0 < 300 ∧ 300 ≤ 1000000 := by decide

def oneChair : Tier3OrderRequest := ⟨"chair", 1, 300, oneChair_item, oneChair_quantity, oneChair_amount⟩

theorem atEpoch_lt : (0 : ℤ).natAbs < 2 ^ 63 := by decide

def atEpoch : UnixTime := ⟨0, atEpoch_lt⟩

theorem schemasAgree_iff_partner : SchemasAgree (mintActionId atEpoch 0)
    (handoffEnvelope (mintActionId atEpoch 0) "partner-a" oneChair .withinMandate 500 0 604800 "0.0" none) ↔
      "partner-a".length ≤ 200 :=
  schemasAgree_iff " partner-a\n" "partner-a" (by decide) oneChair .withinMandate 500 0 604800 (by decide)
    (by decide) (by decide) atEpoch 0 "0.0" none

theorem acceptClientId_of_chars {s : String} {c : Char} {rest : List Char} (hs : s.toList = c :: rest)
    (hstrip : strip s = s) (hc : c.isAlphanum = true) (hlen : rest.length ≤ 254)
    (hrest : ∀ x ∈ rest, isClientIdChar x = true) : acceptClientId s = some s := by
  have hmatch : clientIdRe.isMatch s = true := by
    refine Regex.isMatch_iff.2 ⟨c :: rest, [], by rw [hs, List.append_nil], ?_⟩
    refine Regex.spans_seq.2 ⟨[], _, rfl, Regex.spans_start.2 ⟨rfl, rfl⟩, ?_⟩
    refine Regex.spans_seq.2 ⟨[c], rest, rfl, Regex.spans_set.2 ⟨c, rfl, hc⟩, ?_⟩
    refine Regex.spans_seq.2 ⟨rest, [], (List.append_nil _).symm, ?_, Regex.spans_end.2 ⟨rfl, .inl rfl⟩⟩
    exact (Regex.spans_rep_set (Nat.zero_le _)).2 ⟨Nat.zero_le _, hlen, hrest⟩
  unfold acceptClientId
  rw [hstrip, if_pos hmatch]

/-- 201 times the letter a. -/
def longClientId : String := String.ofList ('a' :: List.replicate 200 'a')

theorem toList_longClientId : longClientId.toList = 'a' :: List.replicate 200 'a' := String.toList_ofList

theorem length_longClientId : longClientId.length = 201 := by
  rw [← String.length_toList, toList_longClientId, List.length_cons, List.length_replicate]

theorem acceptClientId_longClientId : acceptClientId longClientId = some longClientId := by
  have hchar : ∀ c ∈ longClientId.toList, c = 'a' := by
    intro c hc
    rw [toList_longClientId, List.mem_cons] at hc
    rcases hc with rfl | hc
    · rfl
    · exact List.eq_of_mem_replicate hc
  refine acceptClientId_of_chars toList_longClientId (strip_eq_self fun c hc => ?_) (by decide) ?_
    fun x hx => ?_
  · rw [hchar c hc]
    decide
  · rw [List.length_replicate]
    decide
  · rw [List.eq_of_mem_replicate hx]
    decide

/-- Its orders are answered 422 and reported as an unavailable agent. -/
theorem not_schemasAgree : ¬ ∀ (field clientId : String), acceptClientId field = some clientId →
    ∀ (body : Tier3OrderRequest) (mode : Mode) (limit used window : ℤ), 0 < limit → 0 ≤ used → 0 < window →
    ∀ (now : UnixTime) (token : BitVec 32) (requestedAt : String) (approvedBy : Option String),
      SchemasAgree (mintActionId now token) (handoffEnvelope (mintActionId now token) clientId body mode
        limit used window requestedAt approvedBy) := by
  intro h
  obtain ⟨a, p, hvalid, -⟩ := (h longClientId longClientId acceptClientId_longClientId oneChair
    .withinMandate 500 0 604800 (by decide) (by decide) (by decide) atEpoch 0 "0.0" none).taken
  have hlong : 200 < longClientId.length := by
    rw [length_longClientId]
    decide
  rw [validateAction_of_long hlong] at hvalid
  cases hvalid

end Agent

end Embassy
