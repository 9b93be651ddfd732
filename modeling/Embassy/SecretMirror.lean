import Embassy.Lib.Runs
import Embassy.PartnerClients

/-!
# OpenBao mirrors Keycloak's secret

When no request is in flight OpenBao's entry should hold Keycloak's current secret, unless a response said
otherwise (`Settled`). A request writes the secret it read or was given earlier, so two requests that cross
can leave an old secret there (`not_settled`), and a delete can take the entry of a client created since.
Where an OpenBao call agrees with Keycloak's state, or another request will still put the entry right
(`Agrees`), the entry is right in the end (`settled_of_agrees`).
-/

namespace Embassy
open Lib

namespace Partner

/-- The entry is Keycloak's current secret, or there is neither. -/
def Mirrored (w : World) : Prop := w.entry.map Entry.clientSecret = w.client.map Client.secret

def Response.Complains (r : Response) : Prop := r.openbaoWarning = true ∨ 400 ≤ r.status

def Complained (w : World) : Prop := ∃ i r, w.handlers i = some (.answered r) ∧ r.Complains

def Quiet (w : World) : Prop := ∀ i h, w.handlers i = some h → ∃ r, h = .answered r

/-- What is promised of a state. -/
def Settled (w : World) : Prop := Quiet w → Mirrored w ∨ Complained w

/-- What the request does next leaves the entry right: an OpenBao call that agrees with Keycloak's state,
or a Keycloak call before that. -/
def Handler.Rights (w : World) : Handler → Prop
  | .writing _ secret _ => w.client.map Client.secret = some secret
  | .erasing => w.client = none
  | .deleting uuid => ∀ c, w.client = some c → c.uuid = uuid
  | .answered _ => False
  | _ => True

def Handler.CallsOpenBao : Handler → Prop
  | .writing .. | .erasing => True
  | _ => False

/-- An OpenBao call agrees with Keycloak's state, or somebody was told, or another request in flight will
put the entry right. -/
def Agrees (w : World) : Act → Prop
  | .call i _ => ∀ h, w.handlers i = some h → h.CallsOpenBao →
      h.Rights w ∨ Complained w ∨ ∃ j h', j ≠ i ∧ w.handlers j = some h' ∧ h'.Rights w
  | _ => True

/-- Keycloak and OpenBao as they are found, in agreement. -/
def World.init (client : Option Client) : World :=
  ⟨client, client.map fun c => ⟨c.secret, c.uuid⟩, fun _ => none⟩

/-- The invariant. -/
def Owed (w : World) : Prop :=
  Mirrored w ∨ Complained w ∨ ∃ i h, w.handlers i = some h ∧ h.Rights w

section
variable {w w' : World} {i j : ℕ} {h h' : Handler} {act : Act} {uuid secret : String}

theorem goto_handlers_self : (w.goto i h).handlers i = some h := Function.update_self ..

theorem goto_handlers_of_ne (hji : j ≠ i) : (w.goto i h).handlers j = w.handlers j :=
  Function.update_of_ne hji ..

theorem rights_congr (hclient : w'.client = w.client) : h.Rights w' ↔ h.Rights w := by
  cases h <;> simp [Handler.Rights, hclient]

/-- The steps of request `i` leave the others where they are, and answered requests take none. -/
structure StepsAt (w : World) (i : ℕ) (w' : World) : Prop where
  others : ∀ j, j ≠ i → w'.handlers j = w.handlers j
  open_ : ∀ r, w.handlers i ≠ some (.answered r)

theorem Complained.step (hc : Complained w) (hs : StepsAt w i w') : Complained w' := by
  obtain ⟨j, r, hj, hr⟩ := hc
  refine ⟨j, r, ?_, hr⟩
  rw [hs.others j fun hji => hs.open_ r (hji ▸ hj), hj]

theorem owed_of_actor (hi : w'.handlers i = some h')
    (hright : h'.Rights w' ∨ ∃ r, h' = .answered r ∧ r.Complains) : Owed w' := by
  rcases hright with hr | ⟨r, rfl, hr⟩
  · exact .inr (.inr ⟨i, h', hi, hr⟩)
  · exact .inr (.inl ⟨i, r, hi, hr⟩)

theorem owed_of_other (hs : StepsAt w i w') (hclient : w'.client = w.client) (hji : j ≠ i)
    (hj : w.handlers j = some h) (hr : h.Rights w) : Owed w' :=
  .inr (.inr ⟨j, h, by rw [hs.others j hji, hj], (rights_congr hclient).2 hr⟩)

theorem owed_of_error {status : ℕ} (hle : 400 ≤ status) : Owed (w.answer i status) :=
  owed_of_actor goto_handlers_self (.inr ⟨_, rfl, .inr hle⟩)

/-- A request that looks for its client goes on to put the entry right, or answers an error. -/
theorem owed_of_finds {next : Handler} {status : ℕ} (hnext : w.Finds uuid → next.Rights w)
    (hle : 400 ≤ status) : Owed (if w.Finds uuid then w.goto i next else w.answer i status) := by
  by_cases hf : w.Finds uuid
  · rw [if_pos hf]
    exact owed_of_actor goto_handlers_self (.inl ((rights_congr rfl).2 (hnext hf)))
  · rw [if_neg hf]
    exact owed_of_error hle

theorem owed_arrive {next : Handler} (hs : arrive w i uuid next = some w')
    (hnext : w.Finds uuid → next.Rights w) : Owed w' := by
  unfold arrive at hs
  split at hs
  · cases hs
  · obtain rfl := Option.some.inj hs
    exact owed_of_finds hnext (by decide)

theorem eq_uuid_of_finds {c : Client} (hf : w.Finds uuid) (hc : w.client = some c) : c.uuid = uuid := by
  rw [World.Finds, hc] at hf
  exact Option.some.inj hf

theorem secretOf_eq_some (hs : w.secretOf uuid = some secret) : w.client.map Client.secret = some secret := by
  unfold World.secretOf at hs
  split at hs
  · exact hs
  · cases hs

/-- A Keycloak call leaves somebody to put the entry right, or told the caller. -/
theorem owed_of_keycloak (howed : Owed w) (hi : w.handlers i = some h) (hbao : ¬ h.CallsOpenBao)
    (hs : callOf w i secret h = some w') : Owed w' := by
  cases h with
  | created uuid =>
    obtain rfl := Option.some.inj hs
    exact owed_of_finds (fun _ => trivial) (by decide)
  | fetched uuid =>
    simp only [callOf] at hs
    split at hs <;> obtain rfl := Option.some.inj hs
    · rename_i current hcurrent
      exact owed_of_actor goto_handlers_self (.inl (secretOf_eq_some hcurrent))
    · exact owed_of_actor goto_handlers_self (.inr ⟨_, rfl, .inl rfl⟩)
  | revealing uuid =>
    obtain rfl := Option.some.inj hs
    exact owed_of_finds (fun _ => trivial) (by decide)
  | getting uuid =>
    simp only [callOf] at hs
    split at hs <;> obtain rfl := Option.some.inj hs
    · rename_i current hcurrent
      exact owed_of_actor goto_handlers_self (.inl (secretOf_eq_some hcurrent))
    · exact owed_of_error (by decide)
  | regenerating uuid =>
    obtain rfl := Option.some.inj hs
    exact owed_of_finds (fun _ => trivial) (by decide)
  | posting uuid =>
    simp only [callOf] at hs
    split at hs
    · split at hs <;> [obtain rfl := Option.some.inj hs; cases hs]
      exact owed_of_actor goto_handlers_self (.inl rfl)
    · obtain rfl := Option.some.inj hs
      exact owed_of_error (by decide)
  | deleting uuid =>
    obtain rfl := Option.some.inj hs
    by_cases hf : w.Finds uuid
    · exact owed_of_actor goto_handlers_self (.inl (if_pos hf))
    · -- the client this request is about is gone already, and another may be there
      have hclient : (({ w with client := if w.Finds uuid then none else w.client } : World).goto i
          .erasing).client = w.client := if_neg hf
      have hat : StepsAt w i (({ w with client := if w.Finds uuid then none else w.client } : World).goto i
          .erasing) :=
        ⟨fun j hji => goto_handlers_of_ne hji, fun r hr => by rw [hi] at hr; cases hr⟩
      rcases howed with hm | hc | ⟨j, h, hj, hr⟩
      · exact .inl (by rw [Mirrored, hclient]; exact hm)
      · exact .inr (.inl (hc.step hat))
      · by_cases hji : j = i
        · subst hji
          obtain rfl := Option.some.inj (hi.symm.trans hj)
          refine owed_of_actor goto_handlers_self (.inl (hclient.trans ?_))
          cases hc : w.client with
          | none => rfl
          | some c => exact absurd (by rw [World.Finds, hc, ← hr c hc]; rfl) hf
        · exact owed_of_other hat hclient hji hj hr
  | writing => exact absurd trivial hbao
  | erasing => exact absurd trivial hbao
  | answered => cases hs

theorem openBao_step (hi : w.handlers i = some h) (hbao : h.CallsOpenBao)
    (hs : callOf w i secret h = some w') : w'.client = w.client ∧ StepsAt w i w' ∧
      (∃ status, w'.handlers i = some (.answered ⟨status, false⟩) ∧ status < 400) ∧
      (Mirrored w' ↔ h.Rights w) := by
  cases h with
  | writing uuid secret create =>
    obtain rfl := Option.some.inj hs
    refine ⟨rfl, ⟨fun j hji => goto_handlers_of_ne hji, fun r hr => ?_⟩, ⟨_, goto_handlers_self, ?_⟩, ?_⟩
    · rw [hi] at hr; cases hr
    · split <;> decide
    · exact eq_comm
  | erasing =>
    obtain rfl := Option.some.inj hs
    refine ⟨rfl, ⟨fun j hji => goto_handlers_of_ne hji, fun r hr => ?_⟩, ⟨_, goto_handlers_self, ?_⟩, ?_⟩
    · rw [hi] at hr; cases hr
    · decide
    · exact eq_comm.trans Option.map_eq_none_iff
  | _ => exact absurd hbao id

/-- In a state that is owed its entry, so is the next one exactly if the step meets the condition. -/
theorem agrees_iff (howed : Owed w) (hs : step w act = some w') : Owed w' ↔ Agrees w act := by
  cases act with
  | create i uuid secret =>
    refine ⟨fun _ => trivial, fun _ => ?_⟩
    simp only [step] at hs
    split at hs
    · cases hs
    · obtain rfl := Option.some.inj hs
      exact owed_of_error (by decide)
    · split at hs <;> [obtain rfl := Option.some.inj hs; cases hs]
      exact owed_of_actor goto_handlers_self (.inl trivial)
  | reveal i uuid => exact ⟨fun _ => trivial, fun _ => owed_arrive hs fun _ => trivial⟩
  | regenerate i uuid => exact ⟨fun _ => trivial, fun _ => owed_arrive hs fun _ => trivial⟩
  | delete i uuid =>
    exact ⟨fun _ => trivial, fun _ => owed_arrive hs fun hf _ hc => eq_uuid_of_finds hf hc⟩
  | call i secret =>
    obtain ⟨h, hi, hs⟩ := Option.bind_eq_some_iff.1 hs
    by_cases hbao : h.CallsOpenBao
    · obtain ⟨hclient, hat, ⟨status, hanswer, hstatus⟩, hmirrored⟩ := openBao_step hi hbao hs
      constructor
      · intro howed' h' hi' _
        obtain rfl := Option.some.inj (hi.symm.trans hi')
        rcases howed' with hm | ⟨j, r, hj, hr⟩ | ⟨j, h', hj, hr⟩
        · exact .inl (hmirrored.1 hm)
        · by_cases hji : j = i
          · subst hji
            obtain rfl := Handler.answered.inj (Option.some.inj (hanswer.symm.trans hj))
            rcases hr with hr | hr
            · cases hr
            · exact absurd hr (not_le.2 hstatus)
          · exact .inr (.inl ⟨j, r, by rw [← hat.others j hji, hj], hr⟩)
        · by_cases hji : j = i
          · subst hji
            obtain rfl := Option.some.inj (hanswer.symm.trans hj)
            exact absurd hr id
          · exact .inr (.inr ⟨j, h', hji, by rw [← hat.others j hji, hj], (rights_congr hclient).1 hr⟩)
      · intro hok
        rcases hok h hi hbao with hr | hc | ⟨j, h', hji, hj, hr⟩
        · exact .inl (hmirrored.2 hr)
        · exact .inr (.inl (hc.step hat))
        · exact owed_of_other hat hclient hji hj hr
    · refine ⟨fun _ h' hi' hbao' => ?_, fun _ => owed_of_keycloak howed hi hbao hs⟩
      obtain rfl := Option.some.inj (hi.symm.trans hi')
      exact absurd hbao' hbao

theorem settled_of_owed (howed : Owed w) : Settled w := by
  intro hquiet
  rcases howed with hm | hc | ⟨i, h, hi, hr⟩
  · exact .inl hm
  · exact .inr hc
  · obtain ⟨r, rfl⟩ := hquiet i h hi
    exact absurd hr id

theorem owed_init (client : Option Client) : Owed (.init client) :=
  .inl (by cases client <;> rfl)

end

/-- In every run whose OpenBao calls agree with Keycloak's state, or leave it to another request in flight
to put the entry right: when no request is in flight, the entry is Keycloak's secret, or a response said
otherwise. -/
theorem settled_of_agrees (client : Option Client) (w : World)
    (h : Reaches step Agrees (.init client) w) : Settled w :=
  settled_of_owed (h.invariant (owed_init client) fun _ _ _ howed hok hs => (agrees_iff howed hs).2 hok)

/-! ### Two runs -/

instance (w : World) (h : Handler) : Decidable (h.Rights w) :=
  match h with
  | .writing _ secret _ => inferInstanceAs (Decidable (w.client.map Client.secret = some secret))
  | .erasing => inferInstanceAs (Decidable (w.client = none))
  | .deleting uuid => inferInstanceAs (Decidable (∀ c ∈ w.client, c.uuid = uuid))
  | .answered _ => isFalse id
  | .created _ | .fetched _ | .revealing _ | .getting _ | .regenerating _ | .posting _ => isTrue trivial

/-- The request that takes the step puts the entry right itself. -/
def InOrder (w : World) : Act → Prop
  | .call i _ => ∀ h ∈ w.handlers i, h.Rights w
  | _ => True

instance (w : World) (act : Act) : Decidable (InOrder w act) :=
  match act with
  | .call i _ => inferInstanceAs (Decidable (∀ h ∈ w.handlers i, h.Rights w))
  | .create .. | .reveal .. | .regenerate .. | .delete .. => isTrue trivial

theorem agrees_of_inOrder (w : World) (act : Act) (h : InOrder w act) : Agrees w act := by
  cases act with
  | call i secret => exact fun h' hi _ => .inl (h h' hi)
  | _ => trivial

/-- A client is created, its secret regenerated, and the client deleted; the reveal in between crosses the
regeneration, but is done first. -/
def crossingActs : List Act :=
  [.create 0 "u" "s", .call 0 "", .call 0 "", .call 0 "", .regenerate 1 "u", .reveal 2 "u", .call 2 "",
    .call 2 "", .call 1 "", .call 2 "", .call 1 "t", .call 1 ""]

theorem settled_of_agrees_crossing : ∃ w, w.entry = some ⟨"t", "u"⟩ ∧ w.client.map Client.secret = some "t" ∧
    Settled w := by
  have hrun : (runUnder step InOrder (.init none) crossingActs).map (fun w =>
      (w.entry, w.client.map Client.secret)) = some (some ⟨"t", "u"⟩, some "t") := by decide
  obtain ⟨w, hw, hobs⟩ := Option.map_eq_some_iff.1 hrun
  obtain ⟨hentry, hsecret⟩ := Prod.mk.inj hobs
  exact ⟨w, hentry, hsecret, settled_of_agrees none w ((reaches_of_runUnder hw).mono agrees_of_inOrder)⟩

/-- A reveal gets the old secret, a regeneration replaces and mirrors it, and then the reveal mirrors the
old one. -/
def staleActs : List Act :=
  [.reveal 0 "u", .call 0 "", .call 0 "", .regenerate 1 "u", .call 1 "", .call 1 "new", .call 1 "",
    .call 0 ""]

theorem not_settled : ¬ ∀ client w, Reaches step anyAct (.init client) w → Settled w := by
  intro h
  let client : Client := ⟨"u", "old", by decide⟩
  obtain ⟨w, hw, hentry, hclient, hhandlers⟩ : ∃ w, run step (.init (some client)) staleActs = some w ∧
      w.entry.map Entry.clientSecret = some "old" ∧ w.client.map Client.secret = some "new" ∧
      ∀ j, w.handlers j = if j < 2 then some (.answered ⟨200, false⟩) else none := by
    refine ⟨_, rfl, rfl, rfl, fun j => ?_⟩
    rcases j with _ | _ | j
    · rfl
    · rfl
    · rfl
  have hquiet : Quiet w := by
    intro j h' hj
    rw [hhandlers] at hj
    split at hj <;> cases hj
    exact ⟨_, rfl⟩
  rcases h (some client) w (reaches_of_run (fun _ _ _ => trivial) hw) hquiet with hm | ⟨j, r, hj, hr⟩
  · rw [Mirrored, hentry, hclient] at hm
    revert hm
    decide
  · rw [hhandlers] at hj
    split at hj <;> cases hj
    rcases hr with hr | hr
    · cases hr
    · revert hr; decide

end Partner

end Embassy
