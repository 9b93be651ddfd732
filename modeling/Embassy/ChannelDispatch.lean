import Embassy.RoutingAllowlist
import Embassy.SchemaAgreement

/-!
# Channels that can be executed (`agent/channels.py`)

`channels.execute` knows three channels and refuses any other name, for which its comment holds the
checks of `rules.py` to account. Those compare names with each other and never with the three: every
action reaches a channel that can be executed if and only if no rule that decides an order leads out of
them (`dispatchable_iff`).
-/

namespace Embassy

namespace Agent

/-- What `channels.execute` posts; `none` is its final return. -/
def ExecuteCall.request (call : ExecuteCall) : Option (String × Json) :=
  channelRequest call.channel call.actionId call.clientId call.item call.quantity call.amountCents

/-- `channels.execute`, where `post` is `_post`. -/
def channelsExecute (post : String → Json → Bool × Option String) (call : ExecuteCall) : Bool × Option String :=
  match call.request with
  | some (path, payload) => post path payload
  | none => (false, none)

/-- With or without an LLM, whatever it answers, every action goes to a channel that is implemented. -/
def Dispatchable (rules : Rules) : Prop :=
  ∀ llm post now envelope payload,
    ∀ call ∈ (decideAndExecute rules llm (channelsExecute post) now envelope payload).calls,
      call.channel ∈ channelNames ∧ call.request.isSome

/-- No rule that decides an order leads to a channel that is not implemented: by its name, its fallback,
or the list the LLM chooses from. -/
def LeadsToChannels (rules : Rules) : Prop :=
  ∀ amountCents : ℤ, 0 < amountCents ∧ amountCents ≤ 1000000 →
    ∀ r, FirstMatch "order.place" amountCents rules.rules r →
      if r.channel = "llm" then
        (∀ f, r.fallbackChannel = some f → f ∈ channelNames) ∧ ∀ c ∈ rules.allowedChannels, c ∈ channelNames
      else r.channel ∈ channelNames

section
variable {rules : Rules} {llm : Llm} {envelope : ActionEnvelope} {payload : OrderPayload} {r : Rule} {c : String}

theorem request_isSome_iff (call : ExecuteCall) : call.request.isSome ↔ call.channel ∈ channelNames := by
  simp only [ExecuteCall.request, channelRequest, channelNames, List.mem_cons, List.not_mem_nil, or_false]
  split
  · simp [*]
  · split
    · simp [*]
    · split <;> simp [*]

theorem dispatchable_iff_routedChannel : Dispatchable rules ↔
    ∀ llm envelope payload c, routedChannel rules llm envelope payload = some c → c ∈ channelNames := by
  constructor
  · intro h llm envelope payload c hc
    refine (h llm (fun _ _ => (false, none)) 0 envelope payload (executeCall envelope payload c) ?_).1
    rw [calls_eq, hc]
    exact List.mem_singleton.2 rfl
  · intro h llm post now envelope payload call hcall
    rw [calls_eq] at hcall
    obtain ⟨c, hc, rfl⟩ := List.mem_map.1 hcall
    have hmem : (executeCall envelope payload c).channel ∈ channelNames :=
      h llm envelope payload c (Option.mem_toList.1 hc)
    exact ⟨hmem, (request_isSome_iff _).2 hmem⟩

theorem mem_channelNames_of_chosen (h : LeadsToChannels rules)
    (hc : Chosen rules llm envelope payload (some c)) : c ∈ channelNames := by
  have hdecided : ∀ r, Decides rules envelope payload r → if r.channel = "llm" then
      (∀ f, r.fallbackChannel = some f → f ∈ channelNames) ∧ ∀ c ∈ rules.allowedChannels, c ∈ channelNames
      else r.channel ∈ channelNames := by
    intro r hr
    refine h payload.amountCents payload.amountCents_range r ?_
    rw [Decides, envelope.actionType_eq] at hr
    exact hr
  generalize hd : some c = d at hc
  cases hc with
  | unmatched | refused => cases hd
  | named r hr hllm =>
    obtain rfl := Option.some.inj hd
    have hr := hdecided r hr
    rwa [if_neg hllm] at hr
  | fallback r hr hllm =>
    have hr := hdecided r hr
    rw [if_pos hllm] at hr
    exact hr.1 c hd.symm
  | llm c' hcons _ hmem =>
    obtain rfl := Option.some.inj hd
    obtain ⟨-, r, hr, hllm⟩ := hcons
    have hr := hdecided r hr
    rw [if_pos hllm] at hr
    exact hr.2 c hmem

theorem piece_item : 1 ≤ "chair".length ∧ "chair".length ≤ 200 := by decide

theorem piece_quantity : (0 : ℤ) < 1 ∧ (1 : ℤ) ≤ 10000 := by decide

def onePiece (amountCents : ℤ) (h : 0 < amountCents ∧ amountCents ≤ 1000000) : OrderPayload :=
  ⟨"chair", 1, amountCents, piece_item, piece_quantity, h⟩

theorem piece_limit : (0 : ℤ) < 500 := by decide

theorem piece_used : (0 : ℤ) ≤ 0 := le_rfl

theorem piece_remaining : (0 : ℤ) ≤ 500 := by decide

theorem piece_window : (0 : ℤ) < 604800 := by decide

theorem piece_actionId : 1 ≤ "act-1".length ∧ "act-1".length ≤ 64 := by decide

theorem piece_clientId : 1 ≤ "partner-a".length ∧ "partner-a".length ≤ 200 := by decide

def placeEnvelope : ActionEnvelope :=
  ⟨"act-1", "order.place", "partner-a", "1700000000.0", [],
    ⟨.withinMandate, 500, 0, 500, 604800, none, piece_limit, piece_used, piece_remaining, piece_window⟩,
    piece_actionId, rfl, piece_clientId⟩

def noLlm : Llm :=
  ⟨"", fun _ => .error .urlError, fun _ => .error .jsonDecodeError, fun _ => .error .jsonDecodeError⟩

/-- An LLM that names `c`. -/
def naming (c : String) : Llm where
  model := "m"
  complete _ := .ok []
  loads _ := .ok (.obj [("choices", .arr [.obj [("message", .obj [("content", .str c)])]])])
  loadsText _ := .ok (.obj [("channel", .str c)])

theorem naming_names (c prompt : String) : (naming c).Names prompt c :=
  ⟨c, [("channel", .str c)], rfl, rfl, List.cons_ne_nil _ _, by simp, rfl⟩

theorem leadsToChannels_of_dispatchable (h : Dispatchable rules) : LeadsToChannels rules := by
  rw [dispatchable_iff_routedChannel] at h
  intro amountCents hrange r hr
  let payload := onePiece amountCents hrange
  have hdecides : Decides rules placeEnvelope payload r := hr
  split
  · rename_i hllm
    constructor
    · intro f hf
      refine h noLlm placeEnvelope payload f ?_
      rw [routedChannel_fallback hdecides hllm rfl, hf]
    · intro c hc
      refine h (naming c) placeEnvelope payload c ?_
      rw [routedChannel_eq_some_of_consulted ⟨rfl, r, hdecides, hllm⟩]
      exact ⟨naming_names c _, hc⟩
  · rename_i hllm
    have heval : rules.evaluate placeEnvelope.actionType payload.amountCents = some r.channel :=
      evaluate_eq_some.2 ⟨r, hdecides, rfl⟩
    refine h noLlm placeEnvelope payload r.channel ?_
    rw [routedChannel_eq_evaluate, heval]
    rw [heval]
    exact fun heq => hllm (Option.some.inj heq)

end

/-- For every rules file that boots: no action reaches the final return of `channels.execute` if and only
if the rules that decide orders lead to the three channels. -/
theorem dispatchable_iff (rules : Rules) : Dispatchable rules ↔ LeadsToChannels rules := by
  constructor
  · exact leadsToChannels_of_dispatchable
  · intro h
    rw [dispatchable_iff_routedChannel]
    intro llm envelope payload c hc
    have hchosen : Chosen rules llm envelope payload (routedChannel rules llm envelope payload) :=
      chosen_routedChannel
    rw [hc] at hchosen
    exact mem_channelNames_of_chosen h hchosen

/-- `{"allowed_channels": ["mock_ERP"], "rules": [{"action_type": "order.place", "channel": "mock_ERP"}]}` -/
def misspeltConfig : Json :=
  .obj [("allowed_channels", .arr [.str "mock_ERP"]),
    ("rules", .arr [.obj [("action_type", .str "order.place"), ("channel", .str "mock_ERP")]])]

/-- It boots, and every order goes to a channel that does not exist. -/
theorem not_dispatchable : ¬ ∀ config rules, loadRules config = .ok rules → Dispatchable rules := by
  intro h
  have hboot : ∃ rules, loadRules misspeltConfig = .ok rules ∧
      rules.rules = [⟨"order.place", none, "mock_ERP", none⟩] := ⟨_, rfl, rfl⟩
  obtain ⟨rules, hload, hrules⟩ := hboot
  have hmatch : FirstMatch "order.place" 300 rules.rules ⟨"order.place", none, "mock_ERP", none⟩ := by
    rw [hrules]
    exact ⟨[], [], rfl, ⟨rfl, by rintro _ ⟨⟩⟩, by rintro _ ⟨⟩⟩
  have hmem := leadsToChannels_of_dispatchable (h misspeltConfig rules hload) 300 (by decide) _ hmatch
  rw [if_neg (by decide)] at hmem
  revert hmem
  decide

end Agent

end Embassy
