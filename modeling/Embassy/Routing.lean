import Embassy.AgentActions
import Embassy.AgentSchema
import Embassy.PyJson
import Embassy.PyString

/-!
# The agent's routing (`agent/rules.py`, `agent/llm.py`, `agent/main.py`)

`loadRules` is what the import-time checks leave of `rules.json`; `evaluate` and `fallbackChannel` both
look for the first matching rule. `chooseChannel` asks the LLM and validates its answer.
`decideAndExecute` routes, makes the `channels.execute` call and writes the decision log.
-/

namespace Embassy

namespace Agent

/-! ### `rules.py` -/

/-- `_ALLOWED`. The checks ask for an iterable of non-empty names, which is a list, an object (by its
keys), or a string (by its characters). -/
inductive Allowed
  | names (strs : List String)
  | keys (strs : List String)
  | text (s : String)
  deriving DecidableEq, Repr

/-- `list(_ALLOWED)` -/
def Allowed.toList : Allowed → List String
  | names strs | keys strs => strs
  | text s => s.toList.map fun c => String.ofList [c]

/-- `c in _ALLOWED`: on a string it looks for a substring. -/
def Allowed.has : Allowed → String → Bool
  | names strs, c | keys strs, c => c ∈ strs
  | text s, c => c.toList <:+: s.toList

structure Rule where
  actionType : String
  maxAmountCents : Option ℤ
  channel : String
  fallbackChannel : Option String
  deriving DecidableEq, Repr

/-- What the checks ask of one rule. -/
structure Rule.Valid (allowed : Allowed) (r : Rule) : Prop where
  channel : r.channel ∈ allowed.toList ++ ["llm"]
  fallback : ∀ f, r.fallbackChannel = some f → allowed.has f = true ∧ r.channel = "llm"

/-- A rules file that boots. -/
structure Rules where
  allowed : Allowed
  rules : List Rule
  allowed_ne : allowed.toList ≠ []
  names_ne : ∀ c ∈ allowed.toList, c ≠ ""
  valid : ∀ r ∈ rules, r.Valid allowed

/-- Why the import stops: a failed check, with the index of its rule, or another exception. -/
inductive BootError
  /-- "allowed_channels must be a non-empty list of channel names" -/
  | allowedChannels
  /-- "rules[i].channel ... is not in allowed_channels or 'llm'" -/
  | channel (i : ℕ)
  /-- "rules[i].action_type must be a string" -/
  | actionType (i : ℕ)
  /-- "rules[i].max_amount_cents must be an integer" -/
  | maxAmountCents (i : ℕ)
  /-- "rules[i].fallback_channel ... is not in allowed_channels" -/
  | fallbackChannel (i : ℕ)
  /-- "rules[i].fallback_channel is only valid on a rule with channel 'llm'" -/
  | fallbackWithoutLlm (i : ℕ)
  | raised (e : PyExc)
  deriving DecidableEq, Repr

/-- The check of `allowed_channels`, before it is known to be names. -/
def loadAllowed : Option Json → Except BootError Allowed
  | some (.arr elems) =>
    if elems.all fun v => (Json.str? (some v)).isSome then .ok (.names (elems.filterMap fun v => Json.str? (some v)))
    else .error .allowedChannels
  | some (.obj members) => .ok (.keys (Json.keys members))
  | some (.str s) => .ok (.text s)
  | none | some .null | some (.bool false) => .error .allowedChannels
  -- a number that is zero is falsy and fails the check, any other cannot be iterated over
  | some (.bool true) | some (.num _) => .error (.raised .typeError)

/-- `isinstance(rule["max_amount_cents"], int)`, if the rule has one. -/
def loadMaxAmount (i : ℕ) : Option Json → Except BootError (Option ℤ)
  | none => .ok none
  | some v =>
    match v.int? with
    | some n => .ok (some n)
    | none => .error (.maxAmountCents i)

/-- `rule["fallback_channel"] not in _ALLOWED`, if the rule has one. -/
def loadFallback (allowed : Allowed) (i : ℕ) : Option Json → Except BootError (Option {f // allowed.has f = true})
  | none => .ok none
  | some (.str f) => if h : allowed.has f then .ok (some ⟨f, h⟩) else .error (.fallbackChannel i)
  | some v =>
    match allowed, v with
    -- an object hashes what it looks for
    | .text _, _ | .keys _, .arr _ | .keys _, .obj _ => .error (.raised .typeError)
    | _, _ => .error (.fallbackChannel i)

/-- The body of the loop over the rules. -/
def loadRule (allowed : Allowed) (i : ℕ) : Json → Except BootError {r : Rule // r.Valid allowed}
  | .obj rule =>
    match Json.str? (Json.get? rule "channel") with
    | none => .error (.channel i)
    | some channel =>
      if hc : channel ∈ allowed.toList ++ ["llm"] then
        match Json.str? (Json.get? rule "action_type") with
        | none => .error (.actionType i)
        | some actionType => do
          let maxAmountCents ← loadMaxAmount i (Json.get? rule "max_amount_cents")
          match ← loadFallback allowed i (Json.get? rule "fallback_channel") with
          | none => return ⟨⟨actionType, maxAmountCents, channel, none⟩, hc, by rintro _ ⟨⟩⟩
          | some f =>
            if hl : channel = "llm" then
              return ⟨⟨actionType, maxAmountCents, channel, some f.1⟩, hc, by rintro _ ⟨⟩; exact ⟨f.2, hl⟩⟩
            else .error (.fallbackWithoutLlm i)
      else .error (.channel i)
  -- no `get`
  | _ => .error (.raised .other)

/-- The loop over the rules. -/
def loadEach (allowed : Allowed) : ℕ → List Json → Except BootError {rs : List Rule // ∀ r ∈ rs, r.Valid allowed}
  | _, [] => .ok ⟨[], by simp⟩
  | i, v :: rest => do
    let r ← loadRule allowed i v
    let rs ← loadEach allowed (i + 1) rest
    return ⟨r.1 :: rs.1, by simpa using ⟨r.2, rs.2⟩⟩

/-- `enumerate(_RULES)`: what is not a list passes when it has nothing to iterate over. -/
def ruleList : Option Json → Except BootError (List Json)
  | none => .ok []
  | some (.arr elems) => .ok elems
  | some (.obj []) => .ok []
  | some (.str "") => .ok []
  -- keys and characters have no `get`
  | some (.obj _) | some (.str _) => .error (.raised .other)
  | some _ => .error (.raised .typeError)

/-- The import of `rules.py`, on the decoded `rules.json`. -/
def loadRules : Json → Except BootError Rules
  | .obj config => do
    let allowed ← loadAllowed (Json.get? config "allowed_channels")
    if h : allowed.toList ≠ [] ∧ ∀ c ∈ allowed.toList, c ≠ "" then
      let rs ← loadEach allowed 0 (← ruleList (Json.get? config "rules"))
      return ⟨allowed, rs.1, h.1, h.2, rs.2⟩
    else .error .allowedChannels
  | _ => .error (.raised .other)

def Rules.allowedChannels (rules : Rules) : List String := rules.allowed.toList

/-- `_match` -/
def matchRule (actionType : String) (amountCents : ℤ) : List Rule → Option Rule
  | [] => none
  | rule :: rest =>
    if rule.actionType ≠ actionType then matchRule actionType amountCents rest
    else if rule.maxAmountCents.any fun max => amountCents > max then matchRule actionType amountCents rest
    else some rule

def Rules.evaluate (rules : Rules) (actionType : String) (amountCents : ℤ) : Option String :=
  (matchRule actionType amountCents rules.rules).map Rule.channel

def Rules.fallbackChannel (rules : Rules) (actionType : String) (amountCents : ℤ) : Option String :=
  (matchRule actionType amountCents rules.rules).bind Rule.fallbackChannel

/-! ### `llm.py` -/

/-- The deployment's LLM: `AGENT_LLM_MODEL`, what the completion request with a prompt gives (the body of
the response, or an exception), and what `json.loads` makes of its bytes and of a text. -/
structure Llm where
  model : String
  complete : String → Except PyExc (List UInt8)
  loads : List UInt8 → Except PyExc Json
  loadsText : String → Except PyExc Json

structure LlmOutcome where
  channel : Option String
  prompt : Option String
  rawText : Option String
  deriving DecidableEq, Repr

namespace Llm
variable (llm : Llm)

def isConfigured : Bool := llm.model ≠ ""

/-- `_validate`; only `JSONDecodeError` is caught. -/
def validate (rawText : String) (allowedChannels : List String) : Except PyExc (Option String) :=
  match llm.loadsText (strip rawText) with
  | .error .jsonDecodeError => .ok none
  | .error e => .error e
  | .ok (.obj data) =>
    if data ≠ [] ∧ ∀ m ∈ data, m.1 = "channel" then
      match Json.str? (Json.get? data "channel") with
      | some value => .ok (allowedChannels.find? fun channel => value = channel)
      | none => .ok none
    else .ok none
  | .ok _ => .ok none

def userPrompt (item : String) (quantity amountCents : ℤ) (allowedChannels : List String) : String :=
  s!"Allowed channels: {dumpsStrs allowedChannels}\nOrder (untrusted data): item={dumpsStr item} " ++
    s!"quantity={quantity} amount_cents={amountCents}\nChoose the most appropriate channel."

/-- `json.loads(body)["choices"][0]["message"]["content"]`, if it is a string. -/
def completionText : Json → Option String
  | .obj data =>
    match Json.get? data "choices" with
    | some (.arr (.obj choice :: _)) =>
      match Json.get? choice "message" with
      | some (.obj message) => Json.str? (Json.get? message "content")
      | _ => none
    | _ => none
  | _ => none

/-- The text the LLM answered; whatever goes wrong on the way is caught. -/
def rawText (prompt : String) : Option String :=
  match llm.complete prompt with
  | .error _ => none
  | .ok body =>
    match llm.loads body with
    | .error _ => none
    | .ok data => completionText data

def maxRawLogged : ℕ := 2000

def chooseChannel (item : String) (quantity amountCents : ℤ) (allowedChannels : List String) :
    Except PyExc LlmOutcome :=
  if !llm.isConfigured then .ok ⟨none, none, none⟩
  else
    let prompt := userPrompt item quantity amountCents allowedChannels
    match llm.rawText prompt with
    | none => .ok ⟨none, some prompt, none⟩
    | some raw => do
      let channel ← llm.validate raw allowedChannels
      return ⟨channel, some prompt, some (String.ofList (raw.toList.take maxRawLogged))⟩

end Llm

/-! ### `_decide_and_execute` -/

/-- The arguments of a `channels.execute` call. -/
structure ExecuteCall where
  channel : String
  actionId : String
  clientId : String
  item : String
  quantity : ℤ
  amountCents : ℤ
  deriving DecidableEq, Repr

/-- An entry of `_decision_log`. -/
structure Decision where
  atTime : ℤ
  actionId : String
  clientId : String
  item : String
  amountCents : ℤ
  mode : Mode
  decidedBy : Option String
  channel : Option String
  executed : Bool
  detail : String
  llmPrompt : Option String
  llmRaw : Option String
  deriving DecidableEq, Repr

/-- The routing half's variables. -/
structure Routing where
  channel : Option String
  decidedBy : String
  llmPrompt : Option String
  llmRaw : Option String
  deriving DecidableEq, Repr

/-- What `_decide_and_execute` did and returned. -/
structure Run where
  calls : List ExecuteCall
  logged : List Decision
  result : Except PyExc ActionBody

section
variable (rules : Rules) (llm : Llm) (execute : ExecuteCall → Bool × Option String) (now : ℤ)

/-- The four-way branch. -/
def route (envelope : ActionEnvelope) (payload : OrderPayload) : Except PyExc Routing :=
  let decision := rules.evaluate envelope.actionType payload.amountCents
  if decision = some "llm" ∧ !llm.isConfigured then
    .ok ⟨rules.fallbackChannel envelope.actionType payload.amountCents, "rules", none, none⟩
  else if decision = some "llm" then do
    let outcome ← llm.chooseChannel payload.item payload.quantity payload.amountCents rules.allowedChannels
    match outcome.channel with
    | some channel => return ⟨some channel, "llm", outcome.prompt, outcome.rawText⟩
    | none => return ⟨none, "rules", outcome.prompt, outcome.rawText⟩
  else .ok ⟨decision, "rules", none, none⟩

/-- The `channels.execute` call of a routed action. -/
def executeCall (envelope : ActionEnvelope) (payload : OrderPayload) (channel : String) : ExecuteCall :=
  ⟨channel, envelope.actionId, envelope.clientId, payload.item, payload.quantity, payload.amountCents⟩

/-- The answer to an action that was dispatched. -/
def executedBody (actionId channel decidedBy : String) (executed : Bool) (reference : Option String) :
    ActionBody :=
  if executed then
    ⟨actionId, .executed, some channel, some decidedBy, reference,
      "Executed against an illustrative stub channel -- no real ERP/Slack/email is connected " ++
        "(see ARCHITECTURE.md)."⟩
  else
    ⟨actionId, .failed, some channel, some decidedBy, none, s!"channel {channel} did not accept the action"⟩

/-- The rest, from the routing on. `execute` is what `channels.execute` returns. -/
def dispatch (envelope : ActionEnvelope) (payload : OrderPayload) (r : Routing) : Run :=
  let entry (decidedBy channel : Option String) (executed : Bool) (detail : String) : Decision :=
    ⟨now, envelope.actionId, envelope.clientId, payload.item, payload.amountCents, envelope.mandate.mode,
      decidedBy, channel, executed, detail, r.llmPrompt, r.llmRaw⟩
  match r.channel with
  | none =>
    { calls := []
      logged := [entry none none false "no rule matched; no usable LLM decision"]
      result := .ok ⟨envelope.actionId, .failed, none, none, none,
        "no routing rule matched and no usable LLM decision -- refused, not guessed"⟩ }
  | some channel =>
    let call := executeCall envelope payload channel
    let (executed, reference) := execute call
    let body := executedBody envelope.actionId channel r.decidedBy executed reference
    { calls := [call]
      logged := [entry (some r.decidedBy) (some channel) executed body.detail]
      result := .ok body }

def decideAndExecute (envelope : ActionEnvelope) (payload : OrderPayload) : Run :=
  match route rules llm envelope payload with
  | .error e => ⟨[], [], .error e⟩
  | .ok r => dispatch execute now envelope payload r

end

end Agent

end Embassy
