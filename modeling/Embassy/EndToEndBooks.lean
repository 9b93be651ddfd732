import Embassy.EndToEndVerdict

/-!
# What the three services know of each other

In a run in which the agent keeps its locks and forgets no result (`LocksKept`), each action gets to a channel
at most once, as verify reserved it, and what verify settles as executed is there (`honest_of_reaches`). If
moreover nothing is lost that tells whether an action was executed (`Clear`), all that the channels recorded
has live budget at verify (`reconciled_of_reaches`), and no client gets more executed than its mandate allows
(`executed_within_mandate`).
-/

namespace Embassy
open Lib Json

namespace EndToEnd

open Agent (ActionBody)

section
variable {env : Env} {w w' : World} {act : Act}

theorem stable_settled {trace : List Call} : Stable env.verify (fun call => ∀ a b r, call ≠ .settled a b r)
    fun v => ∀ a b r, .settled a b r ∈ v.trace → .settled a b r ∈ trace := by
  have hcall : ∀ {v : Embassy.World} {call : Call}, (∀ a b r, call ≠ .settled a b r) →
      (∀ a b r, .settled a b r ∈ v.trace → .settled a b r ∈ trace) →
      ∀ a b r, .settled a b r ∈ (v.call env.verify call).trace → .settled a b r ∈ trace := by
    intro v call hc h a b r hmem
    rcases List.mem_append.1 hmem with hmem | hmem
    · exact h a b r hmem
    · exact absurd (List.mem_singleton.1 hmem).symm (hc a b r)
  exact ⟨id, fun hc _ => hcall hc, fun hc _ => hcall hc⟩

theorem settled_of_step {v v' : Embassy.World} {b : Embassy.Act} (hb : ∀ i r, b ≠ .settle i r)
    (hv : Embassy.step env.verify v b = some v') : ∀ a b r, .settled a b r ∈ v'.trace → .settled a b r ∈ v.trace := by
  refine stable_settled.step (fun _ _ h => h) (fun call hc a b' r => ?_) (fun _ _ _ h => h) hv
  rintro rfl
  cases b with
  | settle i r => exact hb i r rfl
  | _ => exact hc.elim

/-- verify settled with what an exchange ended with, and the exchange meets `Q`. -/
def Told (env : Env) (Q : Exchange → Prop) (w : World) : Prop := ∀ a b r, .settled a b r ∈ w.verify.trace →
  ∃ x, w.exchanges a = some x ∧ x.result? env.wire.loads = some (.ok r) ∧ Q x

variable {Q : Exchange → Prop}

theorem Told.step (h : Told env Q w) (hs : Sent env w) (hr : Reaches (Embassy.step env.verify) anyAct .init w.verify)
    (hQ : ∀ i h x, act = .settle i → w.verify.handlers i = some (.executing h) →
      w.exchanges h.order.actionId = some x → Q x) (hm : Moves env w act w') : Told env Q w' := by
  -- an exchange that ended is not the one that goes on
  have hother : ∀ {a x y b}, w.exchanges a = some x → (x.due = true ∨ x.line.isSome) →
      w.exchanges b = some y → ∀ r, y.result? env.wire.loads = some r → b ≠ a := by
    rintro a x y b hx hopen hy r hres rfl
    obtain rfl := Option.some.inj (hx.symm.trans hy)
    obtain ⟨hline, hdue⟩ := Exchange.of_result hres
    rw [hline, hdue] at hopen
    simp at hopen
  cases hm with
  | verify _ hsettle hv => exact fun a b r hmem => h a b r (settled_of_step hsettle hv a b r hmem)
  | @handOff i requestedAt ho v hi hv =>
    intro a b r hmem
    obtain ⟨x, hx, hrest⟩ := h a b r (settled_of_step (by rintro _ _ ⟨⟩) hv a b r hmem)
    exact ⟨x, update_of_none (fresh_of_reserved hs hr hi) hx, hrest⟩
  | @settle i ho x r' v hi hx hres hv =>
    intro a b r hmem
    cases r' with
    | error _ =>
      simp only [Embassy.step, hi] at hv
      obtain rfl := Option.some.inj hv
      exact h a b r hmem
    | ok result =>
      simp only [Embassy.step, hi] at hv
      obtain rfl := Option.some.inj hv
      rcases List.mem_append.1 hmem with hmem | hmem
      · exact h a b r hmem
      · obtain ⟨rfl, rfl, rfl⟩ := Call.settled.inj (List.mem_singleton.1 hmem)
        exact ⟨x, hx, hres, hQ i ho x rfl hi hx⟩
  | @connect a j x hx hj hdue =>
    intro b _ r hmem
    obtain ⟨y, hy, hres, hQy⟩ := h b _ r hmem
    exact ⟨y, (Function.update_of_ne (hother hx (.inl hdue) hy _ hres) ..).trans hy, hres, hQy⟩
  | @finish _ a x o hx ho =>
    intro b _ r hmem
    obtain ⟨y, hy, hres, hQy⟩ := h b _ r hmem
    exact ⟨y, (Function.update_of_ne (hother hx ho.of_open hy _ hres) ..).trans hy, hres, hQy⟩
  | _ => exact h

structure Books (env : Env) (Q : Exchange → Prop) (w : World) : Prop where
  sent : Sent env w
  ran : Ran env w
  heard : Heard w
  logged : Logged w
  told : Told env Q w

theorem stored_of_moves (hm : Moves env w act w') : w.agent.stored ⊆ w'.agent.stored := by
  rcases agent_of_moves hm with ha | ⟨b, ha, -⟩
  · rw [ha]
  · exact Agent.stored_step ha

theorem books_of_reaches {ok : World → Act → Prop} (hok : ∀ w act, ok w act → LocksKept w act)
    (hQ : ∀ w i h x, ok w (.settle i) → w.verify.handlers i = some (.executing h) →
      w.exchanges h.order.actionId = some x → Q x)
    (h : Reaches (step env) ok .init w) (hmax : w.agent.stored.card < env.resultMapMax) : Books env Q w := by
  induction h with
  | refl => exact ⟨sent_init, ran_init, heard_init, logged_init, fun _ _ _ hmem => (by cases hmem)⟩
  | tail hreach hs ih =>
    obtain ⟨act, hact, hs⟩ := hs
    have hm := Moves.of_step hs
    have hmax' := lt_of_le_of_lt (Finset.card_le_card (stored_of_moves hm)) hmax
    have hb := ih hmax'
    have hI := Agent.inv_of_reaches (agent_of_reaches hok hreach) hmax'
    have hv := verify_of_reaches hreach
    refine ⟨hb.sent.step hv hm, hb.ran.step hb.sent hI hv hm hmax, hb.heard.step hb.ran hm,
      hb.logged.step hb.ran hm, hb.told.step hb.sent hv (fun i ho x hi hho hx => ?_) hm⟩
    exact hQ _ i ho x (hi ▸ hact) hho hx

theorem Books.order_of_post (hb : Books env Q w) {j : ℕ} {p : Post} (hp : w.posts j = some p) :
    ∃ x, w.exchanges p.call.actionId = some x ∧ p.call = ⟨p.call.channel, x.handoff.order.actionId,
      x.handoff.order.clientId, x.handoff.order.body.item, x.handoff.order.body.quantity,
      x.handoff.order.body.amountCents⟩ := by
  obtain ⟨envelope, payload, channel, pc, hv, hcall, -, hj, -⟩ := hb.ran.post j p hp
  obtain ⟨x, hx⟩ := hb.sent.exists_exchange hj
  obtain ⟨hid, hclient, hpayload⟩ := hb.sent.validated_spec hx hv
  refine ⟨x, hx, ?_⟩
  have hown := hb.sent.own _ x hx
  rw [hcall] at hown ⊢
  simp only [Agent.executeCall, hpayload, hclient, Agent.payloadOf, hown]

/-- A post that came back accepted is with its channel. -/
theorem Books.exists_delivery (hb : Books env Q w) {j : ℕ} {p : Post} (hp : w.posts j = some p)
    (hsome : p.reference.isSome) : ∃ d, (j, d) ∈ w.deliveries ∧ p.reference = some d.reference ∧
      d.channel = p.call.channel ∧ d.actionId? = some p.call.actionId := by
  obtain ⟨d, hmem⟩ := hb.heard.complete j p hp hsome
  obtain ⟨p', -, hp', href, hchannel, hid, -⟩ := hb.heard.sound j d hmem
  obtain rfl := Option.some.inj (hp.symm.trans hp')
  exact ⟨d, hmem, href, hchannel, hid⟩

theorem Books.reference_of_returned (hb : Books env Q w) {j : ℕ} {p : Post} (hp : w.posts j = some p)
    (hret : p.returned = some true) : p.reference.isSome := by
  obtain ⟨-, -, -, pc, -, -, -, -, hat⟩ := hb.ran.post j p hp
  exact ((Post.stands_of_some hret).1 hat).1 rfl

end

/-- What the channels, the decision log and verify promise of each other in a state `w`. -/
structure Honest (w : World) : Prop where
  /-- No action is recorded twice, whichever the channels. -/
  once : (w.deliveries.map fun d => d.2.actionId?).Nodup
  /-- What a channel recorded is an order as verify made it up, reserved budget for and handed off. -/
  ordered : ∀ j d, (j, d) ∈ w.deliveries → ∃ h path, Reserved w.verify.trace h ∧
    .handedOff h.order.actionId ∈ w.verify.trace ∧ d.actionId? = some h.order.actionId ∧
    Agent.channelRequest d.channel h.order.actionId h.order.clientId h.order.body.item h.order.body.quantity
      h.order.body.amountCents = some (path, d.payload)
  /-- An order that verify settled as executed is with the channel, under the order number, that it named. -/
  executed : ∀ a b channel decidedBy reference, .settled a b (.executed channel decidedBy reference) ∈ w.verify.trace →
    ∃ j d, (j, d) ∈ w.deliveries ∧ d.actionId? = some a ∧ d.channel = channel ∧ d.reference = reference
  /-- So is what the decision log has as executed, each action once. -/
  logged : ∀ e ∈ w.decisions, e.executed = true →
    ∃ j d, (j, d) ∈ w.deliveries ∧ d.actionId? = some e.actionId ∧ e.channel = some d.channel
  loggedOnce : ((w.decisions.filter Agent.Decision.executed).map Agent.Decision.actionId).Nodup

/-! ### Reconciled -/

/-- Nothing is lost that tells whether an action was executed: what verify settles is clear, and the agent hears
of every channel that got a post, as long as it waits for it. -/
def Clear (w : World) : Act → Prop
  | .settle i => ∀ h x, w.verify.handlers i = some (.executing h) → w.exchanges h.order.actionId = some x → x.Clear
  | .deliver j .. => ∀ p, w.posts j = some p → p.returned = none
  | .posted j heard _ => ∀ p, w.posts j = some p → p.reference.isSome → heard = true
  | _ => True

/-- The agent keeps its locks, and nothing is lost. -/
def ClearRun (w : World) (act : Act) : Prop := LocksKept w act ∧ Clear w act

/-- What the decision log says was executed for `c`, of the reservations in the window at time `t`. -/
def executedCents (cfg : Tier3Config) (c : String) (t : ℤ) (l : List Reservation)
    (decisions : List Agent.Decision) : ℤ :=
  ((decisions.filter fun e => e.executed ∧ e.clientId = c ∧
    ∃ r ∈ l, r.event.actionId = some e.actionId ∧ t - cfg.windowSeconds ≤ r.event.atTime).map
      Agent.Decision.amountCents).sum

/-- What verify's budget and the channels promise of each other in a state `w`. -/
structure Reconciled (env : Env) (w : World) : Prop where
  /-- What a channel recorded has its reservation, which was not released. -/
  live : ∀ j d, (j, d) ∈ w.deliveries → ∃ r ∈ ledger w.verify.trace, r.event.actionId = d.actionId? ∧ r.live = true
  /-- What was executed for a client counts as used in the next check of its budget. -/
  covered : ∀ c t, Uncrowded env.verify.toTier3Config c w.verify.trace → env.verify.Past w.verify t →
    executedCents env.verify.toTier3Config c t (ledger w.verify.trace) w.decisions ≤
      tier3UsedCents env.verify.toTier3Config w.verify.store.tier3Events c t

section
variable {env : Env} {w w' : World} {act : Act} {Q : Exchange → Prop}

/-- No channel got a post that came back as not accepted. -/
def Answered (w : World) : Prop := ∀ j p, w.posts j = some p → p.reference.isSome → p.returned ≠ some false

theorem Answered.step (h : Answered w) (hclear : Clear w act) (hm : Moves env w act w') : Answered w' := by
  have hset : ∀ {v : World} {j : ℕ} {p : Post}, v.posts = w.posts →
      (p.reference.isSome → p.returned ≠ some false) → Answered (v.setPost j p) := by
    intro v j p hv hnew k q hq
    rcases of_update (f := v.posts) hq with ⟨-, rfl⟩ | ⟨-, hq⟩
    · exact hnew
    · exact h k q (hv ▸ hq)
  cases hm with
  | execute => exact hset rfl fun hsome => by cases hsome
  | deliver hp => exact hset rfl fun _ => by rw [hclear _ hp]; rintro ⟨⟩
  | posted _ hp _ href =>
    refine hset rfl fun hsome => ?_
    have hheard := hclear _ hp hsome
    rcases href with ⟨hdeaf, -⟩ | rfl
    · cases hheard.symm.trans hdeaf
    · rw [hsome]
      rintro ⟨⟩
  | _ => exact h

theorem answered_of_reaches (h : Reaches (step env) ClearRun .init w) : Answered w :=
  h.invariant (I := Answered) (fun _ _ hp => by cases hp) fun _ _ _ ha hok hs => ha.step hok.2 (.of_step hs)

/-- The reservation of an order that verify handed off. -/
theorem exists_reservation {trace : List Call} {h : Handoff} (hr : Reserved trace h) :
    ∃ r ∈ ledger trace, r.event.IsOf h.order .accepted := by
  obtain ⟨-, e, hmem, hof⟩ := hr
  have hlisted : e ∈ (ledger trace).map Reservation.event :=
    map_event_ledger trace ▸ List.mem_filterMap.2 ⟨_, hmem, rfl⟩
  obtain ⟨r, hr, rfl⟩ := List.mem_map.1 hlisted
  exact ⟨r, hr, hof⟩

theorem Books.live_of_post (hb : Books env Exchange.Clear w) (hI : Agent.Inv w.agent)
    (hl : Lawful w.verify.trace) {j : ℕ} {p : Post} (hp : w.posts j = some p) (hret : p.returned ≠ some false)
    {r : Reservation} (hr : r ∈ ledger w.verify.trace) (ha : r.event.actionId = some p.call.actionId) :
    r.live = true := by
  cases hfate : r.fate with
  | none => rw [Reservation.live, hfate]; rfl
  | some result =>
    have hresults : result ∈ resultsOf p.call.actionId w.verify.trace := by
      rw [results_eq_fate hl r hr _ ha, hfate]
      exact List.mem_singleton_self result
    obtain ⟨call, hcall, hresult⟩ := List.mem_filterMap.1 hresults
    obtain ⟨hmem, habout⟩ := List.mem_filter.1 hcall
    cases call with
    | settled a b r' =>
      obtain rfl := Option.some.inj hresult
      obtain rfl := Option.some.inj (of_decide_eq_true habout)
      obtain ⟨x, hx, hres, hclear⟩ := hb.told _ b _ hmem
      rw [Reservation.live, hfate]
      cases hno : r'.consumes with
      | true => exact hno
      | false => exact absurd (returned_of_released hb.sent hb.ran hI hx hres hclear hno hp rfl) hret
    | _ => cases hresult

/-- The client's grant is put at `limit` only, and not deleted. -/
def MandateKept (c : String) (limit : ℕ) (w : World) : Act → Prop
  | .verify act => KeepsGrant c limit w.verify act
  | _ => True

def MandateRun (c : String) (limit : ℕ) (w : World) (act : Act) : Prop := ClearRun w act ∧ MandateKept c limit w act

theorem mandateInv_of_reaches {c : String} {limit : ℕ} (h : Reaches (step env) (MandateRun c limit) .init w) :
    MandateInv env.verify c limit w.verify := by
  refine h.invariant (I := fun w => MandateInv env.verify c limit w.verify) ?_ fun v act v' hI hok hs => ?_
  · exact ⟨Good.init, ⟨List.Pairwise.nil, fun _ ht => (by cases ht)⟩, fun _ hl => (by cases hl),
      fun _ _ _ hl => (by cases hl), fun _ _ _ => Nat.zero_le _⟩
  · have hm := Moves.of_step hs
    cases hm with
    | verify _ _ hv => exact mandateInv_step hok.2 hI hv
    | handOff _ hv | settle _ _ _ hv => exact mandateInv_step (by trivial) hI hv
    | _ => exact hI

/-- What the decision log has as executed was reserved, for that client and at that price, and is live. -/
theorem Books.live_of_decision (hb : Books env Exchange.Clear w) (hI : Agent.Inv w.agent)
    (hl : Lawful w.verify.trace) {e : Agent.Decision} (he : e ∈ w.decisions) (hex : e.executed = true) :
    ∃ r ∈ ledger w.verify.trace, r.event.actionId = some e.actionId ∧ r.event.clientId = e.clientId ∧
      r.event.amountCents = e.amountCents ∧ r.live = true := by
  obtain ⟨j, p, hp, hret, hid, hclient, -, hamount, -⟩ := hb.logged.sound e he hex
  obtain ⟨x, hx, hcall⟩ := hb.order_of_post hp
  obtain ⟨r, hr, hof⟩ := exists_reservation (hb.sent.reserved _ x hx)
  have hown := hb.sent.own _ x hx
  have ha : r.event.actionId = some p.call.actionId := by rw [hof, ← hown]; rfl
  refine ⟨r, hr, hid ▸ ha, ?_, ?_, hb.live_of_post hI hl hp (by rw [hret]; rintro ⟨⟩) hr ha⟩
  · rw [hof, hclient, hcall]
    rfl
  · rw [hof, hamount, hcall]
    rfl

/-- What was executed for a client costs no more than its live reservations, of whatever kind. -/
theorem Books.executedCents_le (hb : Books env Exchange.Clear w) (hI : Agent.Inv w.agent)
    (hl : Lawful w.verify.trace) (cfg : Tier3Config) (c : String) (t : ℤ) (kind : Reservation → Bool) :
    executedCents cfg c t ((ledger w.verify.trace).filter kind) w.decisions ≤
      spentCents cfg c t ((ledger w.verify.trace).filter kind) := by
  have hcast : (spentCents cfg c t ((ledger w.verify.trace).filter kind) : ℤ) =
      ((((ledger w.verify.trace).filter kind).filter (Reservation.spends cfg c t)).map fun r =>
        (r.event.amountCents : ℤ)).sum := by
    rw [spentCents, Nat.cast_list_sum, List.map_map]
    rfl
  rw [hcast, executedCents]
  refine sum_le_of_keys (fun e => some e.actionId) (fun r => r.event.actionId) ?_
    (fun _ _ => Int.natCast_nonneg _) fun e he => ?_
  · have hsub : (w.decisions.filter fun e => e.executed ∧ e.clientId = c ∧ ∃ r ∈ (ledger w.verify.trace).filter kind,
        r.event.actionId = some e.actionId ∧ t - cfg.windowSeconds ≤ r.event.atTime).Sublist
          (w.decisions.filter Agent.Decision.executed) := by
      refine List.monotone_filter_right _ fun e he => ?_
      exact (of_decide_eq_true he).1
    have hnodup := hb.logged.once.sublist (hsub.map Agent.Decision.actionId)
    have hsome := hnodup.map (Option.some_injective _)
    rwa [List.map_map] at hsome
  · obtain ⟨hmem, hp⟩ := List.mem_filter.1 he
    obtain ⟨hex, rfl, r', hr', ha', htime⟩ := of_decide_eq_true hp
    obtain ⟨r, hr, ha, hclient, hamount, hlive⟩ := hb.live_of_decision hI hl hmem hex
    obtain rfl : r' = r :=
      List.inj_on_of_nodup_map (nodup_ledger hl) (List.mem_of_mem_filter hr') hr (ha'.trans ha.symm)
    exact ⟨r', List.mem_filter.2 ⟨hr', decide_eq_true ⟨hclient, hlive, htime⟩⟩, ha, hamount⟩

end

/-! ### One order of one chair -/

theorem chairRules_ne : (Agent.Allowed.names ["mock_erp"]).toList ≠ [] := by decide

theorem chairRules_names : ∀ c ∈ (Agent.Allowed.names ["mock_erp"]).toList, c ≠ "" := by decide

theorem chairRules_valid : ∀ r ∈ [(⟨"order.place", none, "mock_erp", none⟩ : Agent.Rule)],
    r.Valid (.names ["mock_erp"]) := by
  intro r hr
  obtain rfl := List.mem_singleton.1 hr
  exact ⟨by decide, by rintro f ⟨⟩⟩

def chairAnswer : ActionBody :=
  Agent.executedBody "act-1" "mock_erp" "rules" true (some "ERP-1700000000-act-1")

def chairText : List UInt8 := ("\x7b\"action_id\":\"act-1\",\"status\":\"executed\",\"channel\":\"mock_erp\"," ++
  "\"decided_by\":\"rules\",\"reference\":\"ERP-1700000000-act-1\",\"detail\":\"Executed against an illustrative " ++
  "stub channel -- no real ERP/Slack/email is connected (see ARCHITECTURE.md).\"\x7d").toList.map fun c =>
    UInt8.ofNat c.toNat

theorem map_toList_append_ne_nil {α : Type*} {f : Char → α} {s t : String} (ht : t ≠ "") :
    (s ++ t).toList.map f ≠ [] := by
  rw [Ne, List.map_eq_nil_iff, String.toList_append, List.append_eq_nil_iff, String.toList_eq_nil_iff,
    String.toList_eq_nil_iff]
  exact fun h => ht h.2

-- to evaluate the text costs seconds, and only its end matters
theorem chairText_ne : chairText ≠ [] := map_toList_append_ne_nil (by decide)

def chairRender (body : ActionBody) : List UInt8 := if body = chairAnswer then chairText else []

def chairLoads (text : List UInt8) : Except PyExc Json :=
  if text = chairText then .ok (.obj chairAnswer.members) else .error .jsonDecodeError

theorem chairLoads_render (body : ActionBody) (n : ℕ) (v : Json)
    (h : chairLoads ((chairRender body).take n) = .ok v) : v = .obj body.members := by
  unfold chairLoads at h
  split at h <;> [rename_i htext; cases h]
  obtain rfl := Except.ok.inj h
  unfold chairRender at htext
  split at htext
  · rename_i hbody
    rw [hbody]
  · rw [List.take_nil] at htext
    exact absurd htext.symm chairText_ne

def chairEnv : Env where
  verify := .ticking ⟨100, 50, 100, 10, 100, 50⟩
  rules := ⟨.names ["mock_erp"], [⟨"order.place", none, "mock_erp", none⟩], chairRules_ne, chairRules_names,
    chairRules_valid⟩
  llm := Agent.noLlm
  resultMapMax := 500
  sameToken := true
  wire := ⟨chairRender, chairLoads, chairLoads_render⟩

/-- The order from its request to its answer. -/
def chairActs : List Act :=
  ((.putGrant "partner-a" 500 :: Embassy.arrive 0 "partner-a" "act-1" (chair 300 chair_range) ++
      [.reserve 0] : List Embassy.Act).map Act.verify) ++
    [.handOff 0 "1700000000.0", .connect "act-1" 7, .arrive 7, .agent (.obtain 7), .agent (.acquire 7),
      .agent (.lookUp 7), .decide 7 (fun _ => .error .urlError) 1700000000, .deliver 7 1700000000 1700000000,
      .posted 7 true 1700000000, .agent (.store 7), .agent (.release 7), .answer "act-1" [], .settle 0,
      .verify (.resolve 0)]

def responded : Attempt → Bool
  | .response .. => true
  | _ => false

/-- Only connection 7 is used, all that is asked answers, and one grant is put. -/
def quiet (w : World) : Act → Bool
  | .verify (.putGrant _ limit) => limit = 500
  | .verify (.deleteGrant _) => false
  | .arrive j => j = 7
  | .settle i =>
    match w.verify.handlers i with
    | some (.executing h) =>
      (w.exchanges h.order.actionId).all fun x => decide (x.ended.length = 1) && x.ended.all fun e => responded e.2
    | _ => true
  | .deliver j .. => (w.posts j).all fun p => p.returned.isNone
  | .posted _ heard _ => heard
  | _ => true

section
variable {env : Env} {w w' : World} {act : Act}

theorem requests_of_quiet (hw : ∀ j r, w.agent.requests j = some r → j = 7) (hq : quiet w act = true)
    (hm : Moves env w act w') : ∀ j r, w'.agent.requests j = some r → j = 7 := by
  rintro j ⟨a, pc⟩ hj
  have hold : ∀ b s, Agent.step env.resultMapMax w.agent b = some s → s.requests j = some ⟨a, pc⟩ →
      (∀ c t p, b = .arrive j c t p → j = 7) → j = 7 := by
    intro b s hb hj harrive
    rcases Agent.request_of_step hb hj with ⟨t, p, hact, -⟩ | hj | ⟨pc₀, hj, -⟩
    · exact harrive _ _ _ hact
    · exact hw j _ hj
    · exact hw j _ hj
  cases hm with
  | arrive _ hb =>
    refine hold _ _ hb hj ?_
    rintro _ _ _ ⟨⟩
    exact of_decide_eq_true hq
  | agent hplain hb =>
    refine hold _ _ hb hj ?_
    rintro _ _ _ rfl
    exact hplain.elim
  | raise hb | refuse _ _ _ _ hb | execute _ _ _ hb | posted _ _ _ _ _ hb =>
    exact hold _ _ hb hj (by rintro _ _ _ ⟨⟩)
  | _ => exact hw j _ hj

theorem clearRun_of_quiet (hw : ∀ j r, w.agent.requests j = some r → j = 7) (hq : quiet w act = true) :
    ClearRun w act := by
  constructor
  · cases act with
    | agent b =>
      rintro i a rfl hi - - j pc hj
      rw [hw i _ hi] at hi
      rw [hw j _ hj, hi] at hj
      cases hj
      rfl
    | _ => trivial
  · cases act with
    | settle i =>
      intro h x hi hx before e hended
      simp only [quiet, hi, hx, Option.all_some, hended, List.length_append, List.length_singleton,
        Nat.add_eq_right, List.length_eq_zero_iff, Bool.and_eq_true, decide_eq_true_eq] at hq
      obtain ⟨rfl, hq⟩ := hq
      have he : responded e.2 = true := by simpa using hq
      refine ⟨?_, by rintro ⟨_, hmem, -⟩; cases hmem⟩
      cases ho : e.2 with
      | response => exact id
      | _ => rw [ho] at he; cases he
    | deliver j =>
      intro p hp
      have hq : (w.posts j).all (fun p => p.returned.isNone) = true := hq
      rw [hp] at hq
      exact Option.isNone_iff_eq_none.1 hq
    | posted => exact fun _ _ _ => hq
    | _ => trivial

theorem mandateKept_of_quiet (c : String) (hq : quiet w act = true) : MandateKept c 500 w act := by
  cases act with
  | verify a =>
    cases a with
    | putGrant => exact fun _ => of_decide_eq_true hq
    | deleteGrant => cases hq
    | _ => trivial
  | _ => trivial

theorem reaches_of_quiet (c : String) (h : Reaches (step env) (fun w act => quiet w act = true) .init w) :
    Reaches (step env) (MandateRun c 500) .init w := by
  have hboth : Reaches (step env) (MandateRun c 500) .init w ∧ ∀ j r, w.agent.requests j = some r → j = 7 := by
    refine h.invariant (I := fun w => Reaches (step env) (MandateRun c 500) .init w ∧
      ∀ j r, w.agent.requests j = some r → j = 7) ⟨.refl, by rintro _ _ ⟨⟩⟩ fun v act v' hI hq hs => ?_
    exact ⟨hI.1.snoc ⟨clearRun_of_quiet hI.2 hq, mandateKept_of_quiet c hq⟩ hs,
      requests_of_quiet hI.2 hq (.of_step hs)⟩
  exact hboth.1

end

/-- A state in which the order is settled, logged and with its channel. -/
theorem exists_chair : ∃ w, Reaches (step chairEnv) (MandateRun "partner-a" 500) .init w ∧
    w.agent.stored.card < chairEnv.resultMapMax ∧
    .settled "act-1" false (.executed "mock_erp" "rules" "ERP-1700000000-act-1") ∈ w.verify.trace ∧
    w.deliveries.map (fun d => d.2.actionId?) = [some "act-1"] ∧
    w.verify.reads ≤ 20 ∧ (w.verify.trace.filterMap Call.event?).length ≤ 50 ∧
    executedCents chairEnv.verify.toTier3Config "partner-a" 20 (ledger w.verify.trace) w.decisions = 300 := by
  have hrun : (runUnder (step chairEnv) (fun w act => quiet w act = true) .init chairActs).map (fun w => decide
      (w.agent.stored.card < 500 ∧
        .settled "act-1" false (.executed "mock_erp" "rules" "ERP-1700000000-act-1") ∈ w.verify.trace ∧
        w.deliveries.map (fun d => d.2.actionId?) = [some "act-1"] ∧
        w.verify.reads ≤ 20 ∧ (w.verify.trace.filterMap Call.event?).length ≤ 50 ∧
        executedCents chairEnv.verify.toTier3Config "partner-a" 20 (ledger w.verify.trace) w.decisions = 300)) =
          some true := by
    decide +kernel
  obtain ⟨w, hw, hp⟩ := Option.map_eq_some_iff.1 hrun
  exact ⟨w, reaches_of_quiet _ (reaches_of_runUnder hw), of_decide_eq_true hp⟩

/-! ### In every run -/

/-- Where the agent keeps its locks and forgets no result, each order is executed at most once, and verify and
the decision log have as executed only what was. -/
theorem honest_of_reaches (env : Env) (w : World) (h : Reaches (step env) LocksKept .init w)
    (hmax : w.agent.stored.card < env.resultMapMax) : Honest w := by
  have hb : Books env (fun _ => True) w :=
    books_of_reaches (fun _ _ hok => hok) (fun _ _ _ _ _ _ _ => trivial) h hmax
  have hI := Agent.inv_of_reaches (agent_of_reaches (fun _ _ hok => hok) h) hmax
  refine ⟨?_, fun j d hmem => ?_, fun a b channel decidedBy reference hmem => ?_, fun e hmem hex => ?_,
    hb.logged.once⟩
  · refine List.Nodup.map_on ?_ (List.Nodup.of_map _ hb.heard.once)
    rintro ⟨j, d⟩ hmem ⟨j', d'⟩ hmem' heq
    obtain ⟨p, -, hp, -, -, hid, -⟩ := hb.heard.sound j d hmem
    obtain ⟨p', -, hp', -, -, hid', -⟩ := hb.heard.sound j' d' hmem'
    have hsame : p.call.actionId = p'.call.actionId := Option.some.inj (hid.symm.trans (Eq.trans heq hid'))
    exact List.inj_on_of_nodup_map hb.heard.once hmem hmem' (hb.ran.alone j j' p p' hp hp' hsame)
  · obtain ⟨p, path, hp, -, hchannel, hid, hreq⟩ := hb.heard.sound j d hmem
    obtain ⟨x, hx, hcall⟩ := hb.order_of_post hp
    have hown := hb.sent.own _ x hx
    refine ⟨x.handoff, path, hb.sent.reserved _ x hx, hown ▸ hb.sent.handed _ x hx, hown ▸ hid, ?_⟩
    rw [hchannel, ← hreq, hcall]
    rfl
  · obtain ⟨x, hx, hres, -⟩ := hb.told a b _ hmem
    obtain ⟨j, p, hp, rfl, rfl, href⟩ := exists_post_of_executed hb.sent hb.ran hI hx hres
    obtain ⟨d, hmem, href', hchannel, hid⟩ := hb.exists_delivery hp (by rw [href]; rfl)
    exact ⟨j, d, hmem, hid, hchannel, Option.some.inj (href'.symm.trans href)⟩
  · obtain ⟨j, p, hp, hret, hid, -, -, -, hchannel⟩ := hb.logged.sound e hmem hex
    obtain ⟨d, hmem, -, hto, hid'⟩ := hb.exists_delivery hp (hb.reference_of_returned hp hret)
    exact ⟨j, d, hmem, hid ▸ hid', hto ▸ hchannel⟩

theorem honest_of_reaches_chair : ∃ w,
    .settled "act-1" false (.executed "mock_erp" "rules" "ERP-1700000000-act-1") ∈ w.verify.trace ∧
    w.deliveries.map (fun d => d.2.actionId?) = [some "act-1"] ∧ Honest w := by
  obtain ⟨w, hw, hmax, hsettled, hdelivered, -⟩ := exists_chair
  exact ⟨w, hsettled, hdelivered, honest_of_reaches chairEnv w (hw.mono fun _ _ hok => hok.1.1) hmax⟩

/-- Where the agent keeps its locks and forgets no result and nothing is lost, verify's budgets cover all that
the channels recorded. -/
theorem reconciled_of_reaches (env : Env) (w : World) (h : Reaches (step env) ClearRun .init w)
    (hmax : w.agent.stored.card < env.resultMapMax) : Reconciled env w := by
  have hb : Books env Exchange.Clear w := books_of_reaches (fun _ _ hok => hok.1)
    (fun _ _ ho x hok hi hx => hok.2 ho x hi hx) h hmax
  have hI := Agent.inv_of_reaches (agent_of_reaches (fun _ _ hok => hok.1) h) hmax
  have hv := verify_of_reaches h
  have hg := good_of_reaches hv
  have ha := answered_of_reaches h
  refine ⟨fun j d hmem => ?_, fun c t hun hpast => ?_⟩
  · obtain ⟨p, -, hp, href, -, hid, -⟩ := hb.heard.sound j d hmem
    obtain ⟨x, hx, -⟩ := hb.order_of_post hp
    obtain ⟨r, hr, hof⟩ := exists_reservation (hb.sent.reserved _ x hx)
    have haction : r.event.actionId = some p.call.actionId := by rw [hof, ← hb.sent.own _ x hx]; rfl
    exact ⟨r, hr, haction.trans hid.symm,
      hb.live_of_post hI hg.inv.lawful hp (ha j p hp (by rw [href]; rfl)) hr haction⟩
  · rw [used_eq_spent hg (timed_of_reaches hv) hun hpast]
    have hle := hb.executedCents_le hI hg.inv.lawful env.verify.toTier3Config c t fun _ => true
    rwa [List.filter_true] at hle

theorem reconciled_of_reaches_chair : ∃ w : World, w.deliveries.map (fun d => d.2.actionId?) = [some "act-1"] ∧
    (300 : ℤ) ≤ tier3UsedCents chairEnv.verify.toTier3Config w.verify.store.tier3Events "partner-a" 20 := by
  obtain ⟨w, hw, hmax, -, hdelivered, hreads, hlen, hexecuted⟩ := exists_chair
  have hcovered := (reconciled_of_reaches chairEnv w (hw.mono fun _ _ hok => hok.1) hmax).covered "partner-a" 20
    (fun x => (List.length_filter_le _ _).trans hlen) fun k hk => by
      show (k : ℤ) ≤ 20
      omega
  rw [hexecuted] at hcovered
  exact ⟨w, hdelivered, hcovered⟩

/-- Where also its mandate is never changed, no client ever gets more executed than that in any window, but for
what a human approved. -/
theorem executed_within_mandate (env : Env) (c : String) (limit : ℕ) (w : World)
    (h : Reaches (step env) (MandateRun c limit) .init w) (hmax : w.agent.stored.card < env.resultMapMax)
    (hun : Uncrowded env.verify.toTier3Config c w.verify.trace) (t : ℤ) (hpast : env.verify.Past w.verify t) :
    executedCents env.verify.toTier3Config c t ((ledger w.verify.trace).filter fun r => !r.approvedByHuman)
      w.decisions ≤ limit := by
  have hclear : Reaches (step env) ClearRun .init w := h.mono fun _ _ hok => hok.1
  have hb : Books env Exchange.Clear w := books_of_reaches (fun _ _ hok => hok.1)
    (fun _ _ ho x hok hi hx => hok.2 ho x hi hx) hclear hmax
  have hI := Agent.inv_of_reaches (agent_of_reaches (fun _ _ hok => hok.1) hclear) hmax
  have hmandate := mandateInv_of_reaches h
  refine (hb.executedCents_le hI hmandate.good.inv.lawful env.verify.toTier3Config c t _).trans ?_
  exact_mod_cast hmandate.spent hun t hpast

theorem executed_within_mandate_chair : ∃ w : World, w.deliveries.map (fun d => d.2.actionId?) = [some "act-1"] ∧
    executedCents chairEnv.verify.toTier3Config "partner-a" 20
      ((ledger w.verify.trace).filter fun r => !r.approvedByHuman) w.decisions ≤ (500 : ℕ) := by
  obtain ⟨w, hw, hmax, -, hdelivered, hreads, hlen, -⟩ := exists_chair
  refine ⟨w, hdelivered, executed_within_mandate chairEnv "partner-a" 500 w hw hmax
    (fun x => (List.length_filter_le _ _).trans hlen) 20 fun k hk => ?_⟩
  show (k : ℤ) ≤ 20
  omega

end EndToEnd

end Embassy
