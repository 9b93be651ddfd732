import Embassy.Routing

/-!
# Routing stays inside the allowlist

What `_decide_and_execute` may do with an action (`Routed`): at most one `channels.execute` call, on a
channel of the allowlist that the first matching rule, its fallback or the LLM chose (`Chosen`), whatever
the fallbacks are while an LLM decides and whatever the caller writes while none does. The checks of
`rules.py` let a string pass for `allowed_channels`, and look a fallback up in it as a substring; that is
the only way out of the allowlist (`routed_iff`).
-/

namespace Embassy

namespace Agent

/-- The rule is for the action type, and the amount is not over its ceiling. -/
def Rule.Applies (actionType : String) (amountCents : ℤ) (r : Rule) : Prop :=
  r.actionType = actionType ∧ ∀ max, r.maxAmountCents = some max → amountCents ≤ max

/-- `r` is the first rule that applies. -/
def FirstMatch (actionType : String) (amountCents : ℤ) (rules : List Rule) (r : Rule) : Prop :=
  ∃ before after, rules = before ++ r :: after ∧ r.Applies actionType amountCents ∧
    ∀ q ∈ before, ¬ q.Applies actionType amountCents

/-- The LLM answers the prompt with a JSON object that only has the name "channel", with value `c`. -/
def Llm.Names (llm : Llm) (prompt c : String) : Prop :=
  ∃ raw data, llm.rawText prompt = some raw ∧ llm.loadsText (strip raw) = .ok (.obj data) ∧ data ≠ [] ∧
    (∀ m ∈ data, m.1 = "channel") ∧ Json.get? data "channel" = some (.str c)

section
variable (rules : Rules) (llm : Llm) (envelope : ActionEnvelope) (payload : OrderPayload)

/-- The first rule that applies to this action. -/
def Decides (r : Rule) : Prop := FirstMatch envelope.actionType payload.amountCents rules.rules r

/-- The prompt of this action. -/
def promptOf : String :=
  Llm.userPrompt payload.item payload.quantity payload.amountCents rules.allowedChannels

/-- The rule that decides delegates to an LLM that is configured. -/
def Consulted : Prop := llm.isConfigured ∧ ∃ r, Decides rules envelope payload r ∧ r.channel = "llm"

/-- The channel the action should go to, if any. -/
inductive Chosen : Option String → Prop
  | unmatched : (∀ r ∈ rules.rules, ¬ r.Applies envelope.actionType payload.amountCents) → Chosen none
  | named (r : Rule) : Decides rules envelope payload r → r.channel ≠ "llm" → Chosen (some r.channel)
  | fallback (r : Rule) : Decides rules envelope payload r → r.channel = "llm" → llm.isConfigured = false →
      Chosen r.fallbackChannel
  | llm (c : String) : Consulted rules llm envelope payload → llm.Names (promptOf rules payload) c →
      c ∈ rules.allowedChannels → Chosen (some c)
  | refused : Consulted rules llm envelope payload →
      (∀ c, llm.Names (promptOf rules payload) c → c ∉ rules.allowedChannels) → Chosen none

/-- The rules differ in the values of `fallback_channel` at most. -/
def SameButFallbacks (rules rules' : Rules) : Prop :=
  rules'.allowed = rules.allowed ∧
    rules'.rules.map (fun r => { r with fallbackChannel := none }) =
      rules.rules.map fun r => { r with fallbackChannel := none }

/-- The envelopes and payloads differ in item, quantity, client id and action id at most. -/
def SameOrderClass (envelope' : ActionEnvelope) (payload' : OrderPayload) : Prop :=
  envelope'.actionType = envelope.actionType ∧ envelope'.requestedAt = envelope.requestedAt ∧
    envelope'.mandate = envelope.mandate ∧ payload'.amountCents = payload.amountCents

/-- What is promised of one run of `_decide_and_execute`. -/
structure Routed (execute : ExecuteCall → Bool × Option String) (now : ℤ) : Prop where
  once : (decideAndExecute rules llm execute now envelope payload).calls.length ≤ 1
  allowed : ∀ call ∈ (decideAndExecute rules llm execute now envelope payload).calls,
    call.channel ∈ rules.allowedChannels
  chosen : ∃ c, Chosen rules llm envelope payload c ∧
    (decideAndExecute rules llm execute now envelope payload).calls =
      c.toList.map (executeCall envelope payload)
  /-- While an LLM decides, the fallbacks do not matter. -/
  fallback_free : Consulted rules llm envelope payload → ∀ rules',
    SameButFallbacks rules rules' → decideAndExecute rules' llm execute now envelope payload =
      decideAndExecute rules llm execute now envelope payload
  /-- While none does, the caller's texts do not matter. -/
  caller_free : ¬ Consulted rules llm envelope payload → ∀ envelope' payload',
    SameOrderClass envelope payload envelope' payload' →
    (decideAndExecute rules llm execute now envelope' payload').calls.map ExecuteCall.channel =
      (decideAndExecute rules llm execute now envelope payload).calls.map ExecuteCall.channel

/-- The fallback that is used, if one is, is one of the allowed names. -/
def FallbackListed : Prop :=
  ∀ r f, Decides rules envelope payload r → llm.isConfigured = false → r.fallbackChannel = some f →
    f ∈ rules.allowedChannels

end

section
variable {rules rules' : Rules} {llm : Llm} {envelope : ActionEnvelope} {payload : OrderPayload}
  {actionType : String} {amountCents : ℤ} {rs : List Rule} {r : Rule} {c : String}

theorem matchRule_cons_of_applies (h : r.Applies actionType amountCents) :
    matchRule actionType amountCents (r :: rs) = some r := by
  have hmax : ¬ r.maxAmountCents.any (fun max => amountCents > max) = true := fun hany => by
    obtain ⟨max, hm, hlt⟩ := (Option.any_eq_true _ _).1 hany
    exact absurd (h.2 max hm) (not_le.2 (of_decide_eq_true hlt))
  rw [matchRule, if_neg (not_not.2 h.1), if_neg hmax]

theorem matchRule_cons_of_not (h : ¬ r.Applies actionType amountCents) :
    matchRule actionType amountCents (r :: rs) = matchRule actionType amountCents rs := by
  rw [matchRule]
  split <;> rename_i htype
  · rfl
  · split <;> rename_i hmax
    · rfl
    · refine absurd ⟨not_not.1 htype, fun max hm => not_lt.1 fun hlt => hmax ?_⟩ h
      exact (Option.any_eq_true _ _).2 ⟨max, hm, decide_eq_true hlt⟩

theorem firstMatch_of_matchRule (h : matchRule actionType amountCents rs = some r) :
    FirstMatch actionType amountCents rs r := by
  induction rs with
  | nil => cases h
  | cons q rs ih =>
    by_cases hq : q.Applies actionType amountCents
    · rw [matchRule_cons_of_applies hq] at h
      obtain rfl := Option.some.inj h
      exact ⟨[], rs, rfl, hq, by simp⟩
    · rw [matchRule_cons_of_not hq] at h
      obtain ⟨before, after, rfl, happ, hbefore⟩ := ih h
      exact ⟨q :: before, after, rfl, happ, by simpa using ⟨hq, hbefore⟩⟩

theorem matchRule_of_firstMatch (h : FirstMatch actionType amountCents rs r) :
    matchRule actionType amountCents rs = some r := by
  obtain ⟨before, after, rfl, happ, hbefore⟩ := h
  induction before with
  | nil => exact matchRule_cons_of_applies happ
  | cons q before ih =>
    rw [List.cons_append, matchRule_cons_of_not (hbefore q (by simp))]
    exact ih fun q hq => hbefore q (by simp [hq])

theorem matchRule_eq_some : matchRule actionType amountCents rs = some r ↔
    FirstMatch actionType amountCents rs r :=
  ⟨firstMatch_of_matchRule, matchRule_of_firstMatch⟩

theorem not_applies_of_matchRule (h : matchRule actionType amountCents rs = none) :
    ∀ r ∈ rs, ¬ r.Applies actionType amountCents := by
  induction rs with
  | nil => simp
  | cons q rs ih =>
    by_cases hq : q.Applies actionType amountCents
    · rw [matchRule_cons_of_applies hq] at h; cases h
    · rw [matchRule_cons_of_not hq] at h
      simpa using ⟨hq, ih h⟩

theorem matchRule_map (f : Rule → Rule) (hf : ∀ r, (f r).actionType = r.actionType ∧
      (f r).maxAmountCents = r.maxAmountCents) :
    matchRule actionType amountCents (rs.map f) = (matchRule actionType amountCents rs).map f := by
  induction rs with
  | nil => rfl
  | cons r rs ih =>
    simp only [List.map_cons, matchRule, hf, ih]
    split
    · rfl
    · split <;> rfl

theorem str?_eq_some {v : Option Json} {s : String} : Json.str? v = some s ↔ v = some (.str s) := by
  constructor
  · intro h
    unfold Json.str? at h
    split at h
    · rw [Option.some.inj h]
    · cases h
  · rintro rfl; rfl

theorem find?_self {allowed : List String} (h : c ∈ allowed) :
    allowed.find? (fun channel => c = channel) = some c := by
  obtain ⟨channel, hfind⟩ : ∃ channel, allowed.find? (fun channel => c = channel) = some channel :=
    Option.isSome_iff_exists.1 (List.find?_isSome.2 ⟨c, h, by simp⟩)
  obtain rfl : c = channel := by simpa using List.find?_some hfind
  exact hfind

theorem validate_eq_some {raw : String} {allowed : List String} :
    llm.validate raw allowed = .ok (some c) ↔ (∃ data, llm.loadsText (strip raw) = .ok (.obj data) ∧
      data ≠ [] ∧ (∀ m ∈ data, m.1 = "channel") ∧ Json.get? data "channel" = some (.str c)) ∧ c ∈ allowed := by
  unfold Llm.validate
  cases hloads : llm.loadsText (strip raw) with
  | error e => cases e <;> simp
  | ok v =>
    cases v with
    | obj data =>
      simp only [Except.ok.injEq, Json.obj.injEq, exists_eq_left', ne_eq]
      split <;> rename_i hkeys
      · cases hstr : Json.str? (Json.get? data "channel") with
        | none =>
          have hnone : Json.get? data "channel" ≠ some (.str c) := fun h => by
            rw [str?_eq_some.2 h] at hstr; cases hstr
          simp [hnone]
        | some value =>
          rw [str?_eq_some] at hstr
          simp only [Except.ok.injEq, hstr, Option.some.injEq, Json.str.injEq]
          constructor
          · intro hfind
            obtain rfl : value = c := by simpa using List.find?_some hfind
            exact ⟨⟨hkeys.1, hkeys.2, rfl⟩, List.mem_of_find?_eq_some hfind⟩
          · rintro ⟨⟨-, -, rfl⟩, hmem⟩
            exact find?_self hmem
      · constructor
        · intro h; cases h
        · exact fun h => absurd ⟨h.1.1, h.1.2.1⟩ hkeys
    | _ => simp

/-- The channel of the outcome is what the LLM names, if the list has it. -/
theorem chooseChannel_spec {item : String} {quantity amountCents : ℤ} {allowed : List String}
    (hconf : llm.isConfigured) {outcome : Except PyExc LlmOutcome}
    (h : llm.chooseChannel item quantity amountCents allowed = outcome) :
    (∃ o, outcome = .ok o ∧ o.channel = some c) ↔
      llm.Names (Llm.userPrompt item quantity amountCents allowed) c ∧ c ∈ allowed := by
  subst h
  simp only [Llm.chooseChannel, hconf, Bool.not_true, Bool.false_eq_true, if_false]
  cases hraw : llm.rawText (Llm.userPrompt item quantity amountCents allowed) with
  | none =>
    constructor
    · rintro ⟨o, ho, hc⟩
      obtain rfl := Except.ok.inj ho
      cases hc
    · rintro ⟨⟨raw, data, h, -⟩, -⟩
      rw [hraw] at h; cases h
  | some raw =>
    have hnames : llm.Names (Llm.userPrompt item quantity amountCents allowed) c ∧ c ∈ allowed ↔
        llm.validate raw allowed = .ok (some c) := by
      simp only [validate_eq_some, Llm.Names, hraw, Option.some.injEq, exists_and_left, exists_eq_left']
    rw [hnames]
    cases hvalid : llm.validate raw allowed with
    | error e => simp [hvalid, Bind.bind, Except.bind]
    | ok channel => simp [hvalid, Bind.bind, Except.bind, Pure.pure, Except.pure]

/-! ### The route -/

section
variable (rules llm envelope payload)

def routedChannel : Option String :=
  match route rules llm envelope payload with
  | .ok r => r.channel
  | .error _ => none

end

theorem calls_eq (execute : ExecuteCall → Bool × Option String) (now : ℤ) :
    (decideAndExecute rules llm execute now envelope payload).calls =
      (routedChannel rules llm envelope payload).toList.map (executeCall envelope payload) := by
  unfold decideAndExecute routedChannel
  cases route rules llm envelope payload with
  | error e => rfl
  | ok r =>
    unfold dispatch
    cases hc : r.channel with
    | none => simp [hc]
    | some channel => simp [hc]

theorem evaluate_eq_some : rules.evaluate envelope.actionType payload.amountCents = some c ↔
    ∃ r, Decides rules envelope payload r ∧ r.channel = c := by
  simp only [Rules.evaluate, Option.map_eq_some_iff, matchRule_eq_some, Decides]

theorem consulted_iff : Consulted rules llm envelope payload ↔
    llm.isConfigured ∧ rules.evaluate envelope.actionType payload.amountCents = some "llm" := by
  rw [evaluate_eq_some, Consulted]

theorem fallbackChannel_of_decides (h : Decides rules envelope payload r) :
    rules.fallbackChannel envelope.actionType payload.amountCents = r.fallbackChannel := by
  rw [Rules.fallbackChannel, matchRule_of_firstMatch h, Option.bind_some]

theorem routedChannel_fallback (hr : Decides rules envelope payload r) (hllm : r.channel = "llm")
    (hconf : llm.isConfigured = false) :
    routedChannel rules llm envelope payload = r.fallbackChannel := by
  have hdec : rules.evaluate envelope.actionType payload.amountCents = some "llm" :=
    evaluate_eq_some.2 ⟨r, hr, hllm⟩
  simp only [routedChannel, route, hdec, hconf, Bool.not_false, and_self, if_true,
    fallbackChannel_of_decides hr]

theorem routedChannel_eq_evaluate
    (h : rules.evaluate envelope.actionType payload.amountCents ≠ some "llm") :
    routedChannel rules llm envelope payload =
      rules.evaluate envelope.actionType payload.amountCents := by
  simp only [routedChannel, route, h, false_and, if_false]

theorem routedChannel_eq_some_of_consulted (h : Consulted rules llm envelope payload) :
    routedChannel rules llm envelope payload = some c ↔
      llm.Names (promptOf rules payload) c ∧ c ∈ rules.allowedChannels := by
  obtain ⟨hconf, hdec⟩ := consulted_iff.1 h
  simp only [promptOf, ← chooseChannel_spec hconf rfl, routedChannel, route, hdec, hconf,
    Bool.not_true, Bool.false_eq_true, and_false, if_false, if_true]
  cases llm.chooseChannel payload.item payload.quantity payload.amountCents rules.allowedChannels with
  | error e => simp [Bind.bind, Except.bind]
  | ok outcome =>
    cases hc : outcome.channel with
    | none => simp [Bind.bind, Except.bind, hc, Pure.pure, Except.pure]
    | some channel => simp [Bind.bind, Except.bind, hc, Pure.pure, Except.pure]

theorem chosen_routedChannel :
    Chosen rules llm envelope payload (routedChannel rules llm envelope payload) := by
  cases hmatch : matchRule envelope.actionType payload.amountCents rules.rules with
  | none =>
    have hdec : rules.evaluate envelope.actionType payload.amountCents = none := by
      rw [Rules.evaluate, hmatch, Option.map_none]
    rw [routedChannel_eq_evaluate (by rw [hdec]; simp), hdec]
    exact .unmatched (not_applies_of_matchRule hmatch)
  | some r =>
    have hr : Decides rules envelope payload r := firstMatch_of_matchRule hmatch
    by_cases hllm : r.channel = "llm"
    · by_cases hconf : llm.isConfigured
      · have hcons : Consulted rules llm envelope payload := ⟨hconf, r, hr, hllm⟩
        cases hc : routedChannel rules llm envelope payload with
        | none =>
          refine .refused hcons fun c hnames hmem => ?_
          rw [(routedChannel_eq_some_of_consulted hcons).2 ⟨hnames, hmem⟩] at hc
          cases hc
        | some c =>
          obtain ⟨hnames, hmem⟩ := (routedChannel_eq_some_of_consulted hcons).1 hc
          exact .llm c hcons hnames hmem
      · rw [Bool.not_eq_true] at hconf
        rw [routedChannel_fallback hr hllm hconf]
        exact .fallback r hr hllm hconf
    · have hdec : rules.evaluate envelope.actionType payload.amountCents = some r.channel :=
        evaluate_eq_some.2 ⟨r, hr, rfl⟩
      rw [routedChannel_eq_evaluate (by rw [hdec]; simpa using hllm), hdec]
      exact .named r hr hllm

theorem mem_of_decides (h : Decides rules envelope payload r) : r ∈ rules.rules := by
  obtain ⟨before, after, heq, -⟩ := h
  rw [heq]; simp

theorem mem_allowed_of_chosen (hlisted : FallbackListed rules llm envelope payload)
    (h : Chosen rules llm envelope payload (some c)) : c ∈ rules.allowedChannels := by
  generalize hd : some c = d at h
  cases h with
  | unmatched => cases hd
  | refused => cases hd
  | named r hr hllm =>
    obtain rfl := Option.some.inj hd
    have hmem := (rules.valid r (mem_of_decides hr)).channel
    simpa [hllm, Rules.allowedChannels] using hmem
  | fallback r hr _ hconf => exact hlisted r c hr hconf hd.symm
  | llm c' _ _ hmem =>
    obtain rfl := Option.some.inj hd
    exact hmem

theorem evaluate_of_sameButFallbacks (h : SameButFallbacks rules rules') {amountCents : ℤ} :
    rules'.evaluate actionType amountCents = rules.evaluate actionType amountCents := by
  have hmap := congrArg (matchRule actionType amountCents) h.2
  rw [matchRule_map _ (by simp), matchRule_map _ (by simp)] at hmap
  have := congrArg (Option.map Rule.channel) hmap
  simpa [Rules.evaluate, Function.comp_def] using this

/-- While an LLM decides, only the action types, ceilings, channels and the list matter. -/
theorem route_of_sameButFallbacks (hsame : SameButFallbacks rules rules')
    (hcons : Consulted rules llm envelope payload) :
    route rules' llm envelope payload = route rules llm envelope payload := by
  have hallowed : rules'.allowedChannels = rules.allowedChannels := by
    rw [Rules.allowedChannels, hsame.1, Rules.allowedChannels]
  simp only [route, evaluate_of_sameButFallbacks hsame, hallowed, hcons.1, Bool.not_true,
    Bool.false_eq_true, and_false, if_false]

/-- While none does, only the action type and the amount matter. -/
theorem routedChannel_of_sameOrderClass {envelope' : ActionEnvelope} {payload' : OrderPayload}
    (hcons : ¬ Consulted rules llm envelope payload)
    (hsame : SameOrderClass envelope payload envelope' payload') :
    routedChannel rules llm envelope' payload' = routedChannel rules llm envelope payload := by
  obtain ⟨htype, -, -, hamount⟩ := hsame
  by_cases hdec : rules.evaluate envelope.actionType payload.amountCents = some "llm"
  · have hconf : llm.isConfigured = false := by
      simpa [consulted_iff, hdec] using hcons
    simp only [routedChannel, route, htype, hamount, hdec, hconf, Bool.not_false, and_self, if_true]
  · rw [routedChannel_eq_evaluate hdec, routedChannel_eq_evaluate (by rwa [htype, hamount]), htype,
      hamount]

end

/-- For every rules file that boots, every LLM and every answer of it: the routing is as promised if and
only if a fallback that is used is one of the allowed names. -/
theorem routed_iff (rules : Rules) (llm : Llm)
    (execute : ExecuteCall → Bool × Option String) (now : ℤ) (envelope : ActionEnvelope)
    (payload : OrderPayload) :
    Routed rules llm envelope payload execute now ↔ FallbackListed rules llm envelope payload := by
  constructor
  · intro hrouted r f hr hconf hf
    have hllm : r.channel = "llm" := ((rules.valid r (mem_of_decides hr)).fallback f hf).2
    refine hrouted.allowed (executeCall envelope payload f) ?_
    rw [calls_eq, routedChannel_fallback hr hllm hconf, hf]
    simp
  · intro hlisted
    refine ⟨?_, ?_, ⟨_, chosen_routedChannel, calls_eq execute now⟩, ?_, ?_⟩
    · rw [calls_eq, List.length_map]
      exact Option.length_toList_le
    · intro call hcall
      rw [calls_eq] at hcall
      obtain ⟨c, hc, rfl⟩ := List.mem_map.1 hcall
      have hchosen : Chosen rules llm envelope payload (routedChannel rules llm envelope payload) :=
        chosen_routedChannel
      rw [Option.mem_toList.1 hc] at hchosen
      exact mem_allowed_of_chosen hlisted hchosen
    · intro hcons rules' hsame
      unfold decideAndExecute
      rw [route_of_sameButFallbacks hsame hcons]
    · intro hcons envelope' payload' hsame
      rw [calls_eq, calls_eq, List.map_map, List.map_map, routedChannel_of_sameOrderClass hcons hsame]
      rfl

/-- `allowed_channels` is the name itself, not a list of it. -/
def stringConfig : Json :=
  .obj [("allowed_channels", .str "mock_erp"),
    ("rules", .arr [.obj [("action_type", .str "order.place"), ("channel", .str "llm"),
      ("fallback_channel", .str "mock_erp")]])]

def catchAll : Rule := ⟨"order.place", none, "llm", some "mock_erp"⟩

theorem chars_ne_nil : (Allowed.text "mock_erp").toList ≠ [] := by decide

theorem chars_ne_empty : ∀ c ∈ (Allowed.text "mock_erp").toList, c ≠ "" := by decide

theorem catchAll_valid : ∀ r ∈ [catchAll], r.Valid (.text "mock_erp") := by
  rintro _ (_ | ⟨_, ⟨⟩⟩)
  refine ⟨by decide, fun f hf => ?_⟩
  obtain rfl := Option.some.inj hf
  decide

/-- What the import makes of it: the name is in the string, so the checks pass. -/
def stringRules : Rules :=
  ⟨.text "mock_erp", [catchAll], chars_ne_nil, chars_ne_empty, catchAll_valid⟩

/-- With no LLM an order then goes to "mock_erp", and `allowed_channels()` are the letters of that name. -/
theorem not_routed : ¬ ∀ config rules, loadRules config = .ok rules →
    ∀ llm execute now envelope payload, Routed rules llm envelope payload execute now := by
  intro h
  let llm : Llm := ⟨"", fun _ => .error .urlError, fun _ => .error .jsonDecodeError,
    fun _ => .error .jsonDecodeError⟩
  let mandate : Mandate :=
    ⟨.withinMandate, 50000, 0, 50000, 604800, none, by decide, by decide, by decide, by decide⟩
  let envelope : ActionEnvelope :=
    ⟨"act-1", "order.place", "desk-buyer", "1700000000.0", [], mandate, by decide, rfl, by decide⟩
  let payload : OrderPayload := ⟨"Desk", 1, 45000, by decide, by decide, by decide⟩
  have hrouted := h stringConfig stringRules rfl llm (fun _ => (true, some "PO-1")) 1700000000 envelope payload
  have hr : Decides stringRules envelope payload catchAll :=
    ⟨[], [], rfl, ⟨rfl, by rintro _ ⟨⟩⟩, by rintro _ ⟨⟩⟩
  have hmem : "mock_erp" ∈ stringRules.allowedChannels := by
    refine hrouted.allowed (executeCall envelope payload "mock_erp") ?_
    rw [calls_eq, routedChannel_fallback hr rfl rfl]
    exact List.mem_singleton.2 rfl
  revert hmem
  decide

end Agent

end Embassy
