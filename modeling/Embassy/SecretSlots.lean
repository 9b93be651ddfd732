import Embassy.ClientContract
import Embassy.JsonDumps
import Embassy.Lib.Dict
import Embassy.PyString

/-!
# The slots of the partners' secrets (`admin/openbao_client.py`)

The client id goes into the address as it is. `requestTarget` is what `urllib` and `http.client` make of the
address, `keyAt` the key that OpenBao reads off the request; bytes of a decoded path are written as the
characters with their numbers. `SlotsSeparate` is what the mirror relies on, for the clients that are in use.
-/

namespace Embassy
open Lib

namespace Admin

/-- Trailing white space is stripped off an address. -/
def rstrip (cs : List Char) : List Char := (cs.reverse.dropWhile isSpace).reverse

/-- An address is cut at its last '#'. -/
def cutFragment (cs : List Char) : List Char :=
  if '#' ∈ cs then ((cs.reverse.dropWhile (· ≠ '#')).drop 1).reverse else cs

/-- What may stand in a request line; anything else raises. -/
def isVisible (c : Char) : Bool := 0x20 < c.toNat ∧ c.toNat < 0x7F

/-- What is asked for, if the path of the address is this. -/
def requestTarget (path : List Char) : Option (List Char) :=
  if (cutFragment (rstrip path)).all isVisible then some (cutFragment (rstrip path)) else none

/-- `None` where an escape is malformed. -/
def percentDecode : List Char → Option (List Char)
  | [] => some []
  | c :: cs =>
    if c = '%' then
      match cs with
      | h :: l :: cs => do
        let hi ← Json.hexVal h
        let lo ← Json.hexVal l
        let rest ← percentDecode cs
        return Char.ofNat (16 * hi + lo) :: rest
      | _ => none
    else (percentDecode cs).map (c :: ·)

/-- The path ends at '?' and is decoded. -/
def pathOf (target : List Char) : Option (List Char) := percentDecode (target.takeWhile (· ≠ '?'))

def keyAt (mount : List Char) (target : List Char) : Option (List Char) :=
  (pathOf target).bind fun path => if mount.isPrefixOf path then some (path.drop mount.length) else none

def dataMount : List Char := "/v1/secret/data/".toList

def metadataMount : List Char := "/v1/secret/metadata/".toList

def tier2Clients : List Char := "tier2-clients/".toList

/-- `_data_url`, after the address of the server -/
def dataPath (clientId : String) : List Char := dataMount ++ (tier2Clients ++ clientId.toList)

/-- `_metadata_url`, after the address of the server -/
def metadataPath (clientId : String) : List Char := metadataMount ++ (tier2Clients ++ clientId.toList)

/-- The secret of each key. -/
abbrev Slots : Type := Dict (List Char) Json

/-- How the server writes the envelope of a secret. -/
structure Vault (loads : List UInt8 → Except PyExc Json) where
  body : Json → List UInt8
  envelope : ∀ secret : String, ∃ members data inner, loads (body (.str secret)) = .ok (.obj members) ∧
    Json.get? members "data" = some (.obj data) ∧ Json.get? data "data" = some (.obj inner) ∧
      Json.get? inner "client_secret" = some (.str secret)

/-- A request for a path: it may not be sent, or may be no request for a key. -/
def served (mount path : List Char) (slots : Slots) (k : List Char → Slots × Attempt) : Slots × Attempt :=
  match requestTarget path with
  | none => (slots, .refused)
  | some target =>
    match keyAt mount target with
    | none => (slots, .response 400 [])
    | some key => k key

section
variable {loads : List UInt8 → Except PyExc Json} (vault : Vault loads)

/-- The answer to a `GET`. -/
def Vault.secretAt (slots : Slots) (key : List Char) : Attempt :=
  match slots.get? key with
  | some secret => .response 200 (vault.body secret)
  | none => .response 404 []

def Vault.attempt (slots : Slots) : Request → Slots × Attempt
  | .writeSecret clientId secret _ =>
    served dataMount (dataPath clientId) slots fun key => (slots.set key secret, .response 200 [])
  | .readSecret clientId =>
    served dataMount (dataPath clientId) slots fun key => (slots, vault.secretAt slots key)
  | .eraseSecret clientId =>
    served metadataMount (metadataPath clientId) slots fun key => (slots.erase key, .response 204 [])
  | _ => (slots, .refused)

def Vault.answer (slots : Slots) (q : Request) : Slots × Answer :=
  ((vault.attempt slots q).1, ⟨(vault.attempt slots q).2, []⟩)

inductive SlotCall
  | write (clientId secret keycloakUuid : String)
  | delete (clientId : String)

def SlotCall.clientId : SlotCall → String
  | write clientId .. | delete clientId => clientId

variable (text : PyExc → List UInt8) (services : { s : Services // configured s = true })

def slotsAfter (slots : Slots) : SlotCall → Slots
  | .write clientId secret uuid =>
    (Dialogue.serve vault.answer slots (writeClientSecret text services clientId (.str secret) (.str uuid))).1
  | .delete clientId => (Dialogue.serve vault.answer slots (deleteClientSecret text services clientId)).1

/-- What `read_client_secret` returns. -/
def reading (slots : Slots) (clientId : String) : Except PyExc (Result Json) :=
  (Dialogue.serve vault.answer slots (readClientSecret text loads services clientId)).2

/-- The secret of a client after a call. An empty one is not written. -/
def keptAfter (clientId : String) (kept : Option String) : SlotCall → Option String
  | .write c secret _ => if c = clientId ∧ secret ≠ "" then some secret else kept
  | .delete c => if c = clientId then none else kept

/-- The secret of a client that is written last, unless it is deleted later. -/
def lastWritten (clientId : String) (calls : List SlotCall) : Option String :=
  calls.foldl (keptAfter clientId) none

def readingOf : Option String → Result Json
  | some secret => .done (.str secret)
  | none => .missing

/-- What names an entry of a directory. -/
def EntryName (name : List Char) : Prop := name ≠ [] ∧ '/' ∉ name ∧ name ≠ ['.'] ∧ name ≠ ['.', '.']

/-- The path addresses a key directly under `tier2-clients/`. -/
def DirectlyUnder (mount path : List Char) : Prop :=
  ∃ target name, requestTarget path = some target ∧ keyAt mount target = some (tier2Clients ++ name) ∧ EntryName name

/-- The clients have slots of their own, and whatever is written and deleted for them, each reads its own
secret. -/
structure SlotsSeparate (clients : Set String) : Prop where
  direct : ∀ c ∈ clients, DirectlyUnder dataMount (dataPath c) ∧ DirectlyUnder metadataMount (metadataPath c)
  distinct : ∀ c ∈ clients, ∀ c' ∈ clients, c ≠ c' →
    (requestTarget (dataPath c)).bind pathOf ≠ (requestTarget (dataPath c')).bind pathOf ∧
      (requestTarget (metadataPath c)).bind pathOf ≠ (requestTarget (metadataPath c')).bind pathOf
  kept : ∀ calls : List SlotCall, (∀ call ∈ calls, call.clientId ∈ clients) → ∀ c ∈ clients,
    reading vault text services (calls.foldl (slotsAfter vault text services) .empty) c =
      .ok (readingOf (lastWritten c calls))

end

/-! ### The names of the slots -/

/-- The name that a client id spells in an address. -/
def slotName (clientId : String) : Option (List Char) := (requestTarget clientId.toList).bind pathOf

/-- The clients spell names, each one its own. -/
structure SlotsNamed (clients : Set String) : Prop where
  named : ∀ c ∈ clients, ∃ name, slotName c = some name ∧ EntryName name
  apart : ∀ c ∈ clients, ∀ c' ∈ clients, slotName c = slotName c' → c = c'

def isPlain (c : Char) : Bool := isVisible c ∧ c ≠ '#' ∧ c ≠ '?' ∧ c ≠ '%'

/-- Nothing in it is changed on the way. -/
def AddressText (p : List Char) : Prop := ∀ c ∈ p, isPlain c = true

variable {p cs mount : List Char}

theorem isSpace_of_isVisible {c : Char} (h : isVisible c = true) : isSpace c = false := by
  have hc := of_decide_eq_true h
  simp only [isSpace, Bool.or_eq_false_iff, Bool.and_eq_false_iff, decide_eq_false_iff_not, beq_eq_false_iff_ne]
  omega

theorem AddressText.char (hp : AddressText p) {c : Char} (hc : c ∈ p) :
    isVisible c = true ∧ c ≠ '#' ∧ c ≠ '?' ∧ c ≠ '%' := of_decide_eq_true (hp c hc)

theorem rstrip_append (hp : AddressText p) : rstrip (p ++ cs) = p ++ rstrip cs := by
  have hself : p.reverse.dropWhile isSpace = p.reverse := by
    rcases hr : p.reverse with _ | ⟨c, r⟩
    · rfl
    · have hc : c ∈ p := List.mem_reverse.mp (hr ▸ List.mem_cons_self ..)
      rw [List.dropWhile_cons_of_neg]
      rw [isSpace_of_isVisible (hp.char hc).1]
      exact Bool.false_ne_true
  rw [rstrip, rstrip, List.reverse_append, List.dropWhile_append]
  split_ifs with hnil
  · rw [List.isEmpty_iff.mp hnil, hself, List.reverse_reverse, List.reverse_nil, List.append_nil]
  · rw [List.reverse_append, List.reverse_reverse]

theorem cutFragment_append (hp : AddressText p) : cutFragment (p ++ cs) = p ++ cutFragment cs := by
  have hno : '#' ∉ p := fun h => (hp.char h).2.1 rfl
  unfold cutFragment
  by_cases h : '#' ∈ cs
  · have hne : cs.reverse.dropWhile (· ≠ '#') ≠ [] := fun hnil => by
      have hall := List.dropWhile_eq_nil_iff.mp hnil '#' (List.mem_reverse.mpr h)
      exact absurd hall (by decide)
    obtain ⟨c, rest, hrest⟩ := List.exists_cons_of_ne_nil hne
    rw [if_pos (List.mem_append_right _ h), if_pos h, List.reverse_append, List.dropWhile_append, hrest]
    simp only [List.isEmpty_cons, Bool.false_eq_true, if_false, List.cons_append, List.drop_succ_cons, List.drop_zero,
      List.reverse_append, List.reverse_reverse]
  · rw [if_neg h, if_neg fun hmem => (List.mem_append.mp hmem).elim hno h]

theorem requestTarget_append (hp : AddressText p) : requestTarget (p ++ cs) = (requestTarget cs).map (p ++ ·) := by
  have hall : p.all isVisible = true := List.all_eq_true.mpr fun c hc => (hp.char hc).1
  unfold requestTarget
  rw [rstrip_append hp, cutFragment_append hp, List.all_append, hall, Bool.true_and]
  split_ifs <;> rfl

theorem percentDecode_append (hp : AddressText p) : percentDecode (p ++ cs) = (percentDecode cs).map (p ++ ·) := by
  induction p with
  | nil => exact Option.map_id'.symm
  | cons c p ih =>
    have hc : c ≠ '%' := (hp.char (List.mem_cons_self ..)).2.2.2
    have hrest := ih fun x hx => hp x (List.mem_cons_of_mem _ hx)
    change percentDecode (c :: (p ++ cs)) = _
    rw [percentDecode.eq_def]
    simp only [if_neg hc, hrest, Option.map_map]
    rfl

theorem pathOf_append (hp : AddressText p) : pathOf (p ++ cs) = (pathOf cs).map (p ++ ·) := by
  have hno : ∀ c ∈ p, decide (c ≠ '?') = true := fun c hc => decide_eq_true (hp.char hc).2.2.1
  rw [pathOf, List.takeWhile_append_of_pos hno, percentDecode_append hp, pathOf]

theorem keyAt_append (hp : AddressText mount) : keyAt mount (mount ++ cs) = pathOf cs := by
  rw [keyAt, pathOf_append hp]
  rcases pathOf cs with _ | path
  · rfl
  · have hprefix : mount.isPrefixOf (mount ++ path) = true := List.isPrefixOf_iff_prefix.mpr (List.prefix_append ..)
    change (if mount.isPrefixOf (mount ++ path) then some ((mount ++ path).drop mount.length) else none) = some path
    rw [if_pos hprefix, List.drop_left']
    rfl

theorem addressText_dataMount : AddressText dataMount := List.all_eq_true.mp (by decide +kernel)

theorem addressText_metadataMount : AddressText metadataMount := List.all_eq_true.mp (by decide +kernel)

theorem addressText_tier2Clients : AddressText tier2Clients := List.all_eq_true.mp (by decide +kernel)

section
variable {c c' : String} {name : List Char} {slots : Slots}

theorem requestTarget_path (hm : AddressText mount) :
    requestTarget (mount ++ (tier2Clients ++ c.toList)) =
      (requestTarget c.toList).map fun target => mount ++ (tier2Clients ++ target) := by
  rw [requestTarget_append hm, requestTarget_append addressText_tier2Clients, Option.map_map]
  rfl

theorem pathOf_path (hm : AddressText mount) :
    (requestTarget (mount ++ (tier2Clients ++ c.toList))).bind pathOf =
      (slotName c).map fun name => mount ++ (tier2Clients ++ name) := by
  rw [requestTarget_path hm, slotName]
  rcases requestTarget c.toList with _ | target
  · rfl
  · change pathOf (mount ++ (tier2Clients ++ target)) = (pathOf target).map _
    rw [pathOf_append hm, pathOf_append addressText_tier2Clients, Option.map_map]
    rfl

theorem exists_of_slotName (hm : AddressText mount) (h : slotName c = some name) :
    ∃ target, requestTarget (mount ++ (tier2Clients ++ c.toList)) = some target ∧
      keyAt mount target = some (tier2Clients ++ name) := by
  obtain ⟨target, htarget, hname⟩ := Option.bind_eq_some_iff.mp h
  refine ⟨mount ++ (tier2Clients ++ target), by rw [requestTarget_path hm, htarget]; rfl, ?_⟩
  rw [keyAt_append hm, pathOf_append addressText_tier2Clients, hname]
  rfl

theorem served_of_slotName (slots : Slots) (k : List Char → Slots × Attempt) (hm : AddressText mount)
    (h : slotName c = some name) : served mount (mount ++ (tier2Clients ++ c.toList)) slots k = k (tier2Clients ++ name) := by
  obtain ⟨target, htarget, hkey⟩ := exists_of_slotName hm h
  rw [served, htarget]
  simp only [hkey]

theorem slotName_of_directlyUnder (hm : AddressText mount)
    (h : DirectlyUnder mount (mount ++ (tier2Clients ++ c.toList))) :
    ∃ name, slotName c = some name ∧ EntryName name := by
  obtain ⟨target, name, htarget, hkey, hname⟩ := h
  rw [requestTarget_path hm] at htarget
  obtain ⟨t, ht, rfl⟩ := Option.map_eq_some_iff.mp htarget
  rw [keyAt_append hm, pathOf_append addressText_tier2Clients] at hkey
  obtain ⟨name', hname', heq⟩ := Option.map_eq_some_iff.mp hkey
  obtain rfl := List.append_cancel_left heq
  exact ⟨name', by rw [slotName, ht]; exact hname', hname⟩

/-! ### The slots after a run of calls -/

variable {loads : List UInt8 → Except PyExc Json} {vault : Vault loads} {text : PyExc → List UInt8}
  {services : { s : Services // configured s = true }} {clients : Set String}

theorem slotsAfter_write (h : slotName c = some name) (slots : Slots) {secret : String} (hsecret : secret ≠ "")
    (uuid : String) :
    slotsAfter vault text services slots (.write c secret uuid) = slots.set (tier2Clients ++ name) (.str secret) := by
  have hserved := served_of_slotName slots (fun key => (slots.set key (.str secret), .response 200 []))
    addressText_dataMount h
  have hprogram : writeClientSecret text services.1 c (.str secret) (.str uuid) =
      single text (.writeSecret c (.str secret) (.str uuid)) [200, 204]
        (fun status => s!"OpenBao returned HTTP {status} writing the secret") (fun _ => none) fun _ => .ok (.done ()) := by
    rw [writeClientSecret, services.2, truthy_str.mpr hsecret]
    rfl
  rw [slotsAfter, hprogram, single, Dialogue.serve, Dialogue.serve]
  exact congrArg Prod.fst hserved

theorem slotsAfter_write_empty (slots : Slots) (c uuid : String) :
    slotsAfter vault text services slots (.write c "" uuid) = slots := by
  rw [slotsAfter, writeClientSecret, services.2]
  rfl

theorem slotsAfter_delete (h : slotName c = some name) (slots : Slots) :
    slotsAfter vault text services slots (.delete c) = slots.erase (tier2Clients ++ name) := by
  have hserved := served_of_slotName slots (fun key => (slots.erase key, .response 204 []))
    addressText_metadataMount h
  rw [slotsAfter, deleteClientSecret, services.2, Bool.not_true, if_neg Bool.false_ne_true, single, Dialogue.serve,
    Dialogue.serve]
  exact congrArg Prod.fst hserved

theorem reading_eq (h : slotName c = some name) {secret : Option String}
    (hslot : slots.get? (tier2Clients ++ name) = secret.map .str) :
    reading vault text services slots c = .ok (readingOf secret) := by
  have hserved := served_of_slotName slots (fun key => (slots, vault.secretAt slots key))
    addressText_dataMount h
  have hattempt : (vault.answer slots (.readSecret c)).2.attempt = vault.secretAt slots (tier2Clients ++ name) :=
    congrArg Prod.snd hserved
  rw [reading, readClientSecret, services.2, Bool.not_true, if_neg Bool.false_ne_true, single,
    Dialogue.serve, Dialogue.serve]
  cases secret with
  | none =>
    rw [Vault.secretAt, hslot] at hattempt
    have houtcome : outcome (.readSecret c, (vault.answer slots (.readSecret c)).2) = .response 404 [] :=
      congrArg (Attempt.final .get []) hattempt
    rw [answered_other (exchange_of_response text houtcome) (if_pos rfl)]
    rfl
  | some secret =>
    obtain ⟨members, data, inner, hloads, hdata, hinner, hsecret⟩ := vault.envelope secret
    rw [Vault.secretAt, hslot] at hattempt
    have houtcome : outcome (.readSecret c, (vault.answer slots (.readSecret c)).2) =
        .response 200 (vault.body (.str secret)) := congrArg (Attempt.final .get []) hattempt
    rw [answered_good (exchange_of_response text houtcome) rfl (List.mem_singleton_self 200), decoded_ok hloads]
    simp only [storedSecret, hdata, hinner, objectOr_obj, bind, Except.bind, hsecret, Option.getD_some]
    rfl

/-- Each client's slot has what is kept of it. -/
def SlotsHold (clients : Set String) (slots : Slots) (kept : String → Option String) : Prop :=
  ∀ c ∈ clients, ∀ name, slotName c = some name → slots.get? (tier2Clients ++ name) = (kept c).map .str

theorem slotName_ne (hnamed : SlotsNamed clients) (hc : c ∈ clients) (hc' : c' ∈ clients) (hne : c ≠ c')
    {name' : List Char} (h : slotName c = some name) (h' : slotName c' = some name') :
    tier2Clients ++ name' ≠ tier2Clients ++ name := fun heq =>
  hne (hnamed.apart c hc c' hc' (by rw [h, h', List.append_cancel_left heq]))

theorem slotsHold_after (hnamed : SlotsNamed clients) {kept : String → Option String} {call : SlotCall}
    (hcall : call.clientId ∈ clients) (h : SlotsHold clients slots kept) :
    SlotsHold clients (slotsAfter vault text services slots call) fun c => keptAfter c (kept c) call := by
  intro c' hc' name' hname'
  beta_reduce
  cases call with
  | write c secret uuid =>
    obtain ⟨name, hname, -⟩ := hnamed.named c hcall
    by_cases hsecret : secret = ""
    · subst hsecret
      rw [slotsAfter_write_empty, keptAfter, if_neg fun hw => hw.2 rfl]
      exact h c' hc' name' hname'
    · rw [slotsAfter_write hname slots hsecret, keptAfter]
      by_cases hc : c = c'
      · subst hc
        obtain rfl := Option.some.inj (hname.symm.trans hname')
        rw [if_pos ⟨rfl, hsecret⟩, Dict.get?_set_self]
        rfl
      · rw [if_neg fun hw => hc hw.1, Dict.get?_set_of_ne _ _ (slotName_ne hnamed hcall hc' hc hname hname')]
        exact h c' hc' name' hname'
  | delete c =>
    obtain ⟨name, hname, -⟩ := hnamed.named c hcall
    rw [slotsAfter_delete hname slots, keptAfter]
    by_cases hc : c = c'
    · subst hc
      obtain rfl := Option.some.inj (hname.symm.trans hname')
      rw [if_pos rfl, Dict.get?_erase_self]
      rfl
    · rw [if_neg hc, Dict.get?_erase_of_ne _ (slotName_ne hnamed hcall hc' hc hname hname')]
      exact h c' hc' name' hname'

theorem slotsHold_run (hnamed : SlotsNamed clients) {calls : List SlotCall} {kept : String → Option String}
    (hcalls : ∀ call ∈ calls, call.clientId ∈ clients) (h : SlotsHold clients slots kept) :
    SlotsHold clients (calls.foldl (slotsAfter vault text services) slots)
      fun c => calls.foldl (keptAfter c) (kept c) := by
  induction calls generalizing slots kept with
  | nil => exact h
  | cons call calls ih =>
    exact ih (fun later hlater => hcalls later (List.mem_cons_of_mem _ hlater))
      (slotsHold_after hnamed (hcalls call (List.mem_cons_self ..)) h)

theorem reading_of_shared (h : slotName c = some name) (h' : slotName c' = some name) (slots : Slots) :
    reading vault text services (slotsAfter vault text services slots (.delete c')) c = .ok .missing := by
  rw [slotsAfter_delete h']
  have hslot : (slots.erase (tier2Clients ++ name)).get? (tier2Clients ++ name) = (none : Option String).map .str :=
    Dict.get?_erase_self _ _
  exact reading_eq h hslot

theorem slotName_plain (h : AddressText c.toList) : slotName c = some c.toList := by
  have htarget : requestTarget (c.toList ++ []) = some (c.toList ++ []) := requestTarget_append h
  have hpath : pathOf (c.toList ++ []) = some (c.toList ++ []) := pathOf_append h
  rw [List.append_nil] at htarget hpath
  rw [slotName, htarget]
  exact hpath

theorem slotsNamed_plain (h : ∀ c ∈ clients, AddressText c.toList ∧ EntryName c.toList) : SlotsNamed clients := by
  refine ⟨fun c hc => ⟨_, slotName_plain (h c hc).1, (h c hc).2⟩, fun c hc c' hc' heq => ?_⟩
  rw [slotName_plain (h c hc).1, slotName_plain (h c' hc').1] at heq
  exact String.toList_injective (Option.some.inj heq)

/-- The mirror keeps the secrets apart for exactly the clients whose ids spell names, different ones for
different ids. -/
theorem slotsSeparate_iff {loads : List UInt8 → Except PyExc Json} (vault : Vault loads) (text : PyExc → List UInt8)
    (services : { s : Services // configured s = true }) (clients : Set String) :
    SlotsSeparate vault text services clients ↔ SlotsNamed clients := by
  constructor
  · intro h
    refine ⟨fun c hc => slotName_of_directlyUnder addressText_dataMount (h.direct c hc).1, fun c hc c' hc' heq => ?_⟩
    by_contra hne
    refine (h.distinct c hc c' hc' hne).1 ?_
    rw [dataPath, dataPath, pathOf_path addressText_dataMount, pathOf_path addressText_dataMount, heq]
  · intro h
    refine ⟨fun c hc => ?_, fun c hc c' hc' hne => ?_, fun calls hcalls c hc => ?_⟩
    · obtain ⟨name, hname, hentry⟩ := h.named c hc
      have hunder {mount : List Char} (hm : AddressText mount) :
          DirectlyUnder mount (mount ++ (tier2Clients ++ c.toList)) := by
        obtain ⟨target, htarget, hkey⟩ := exists_of_slotName hm hname
        exact ⟨target, name, htarget, hkey, hentry⟩
      exact ⟨hunder addressText_dataMount, hunder addressText_metadataMount⟩
    · have hpath {mount : List Char} (hm : AddressText mount) :
          (requestTarget (mount ++ (tier2Clients ++ c.toList))).bind pathOf ≠
            (requestTarget (mount ++ (tier2Clients ++ c'.toList))).bind pathOf := by
        rw [pathOf_path hm, pathOf_path hm]
        intro heq
        refine hne (h.apart c hc c' hc' (Option.map_injective (fun name name' hname => ?_) heq))
        exact List.append_cancel_left (List.append_cancel_left hname)
      exact ⟨hpath addressText_dataMount, hpath addressText_metadataMount⟩
    · obtain ⟨name, hname, -⟩ := h.named c hc
      have hstart : SlotsHold clients .empty fun _ => none := fun _ _ _ _ => rfl
      exact reading_eq hname (slotsHold_run h hcalls hstart c hc name hname)

end

/-- An envelope, as `json.dumps` would write it. -/
def envelopeText (secret : String) : List Char :=
  Json.dumpsMember "data" (Json.dumpsMember "data" (Json.dumpsMember "client_secret" (dumpsStr secret).toList))

def envelopeBody : Json → List UInt8
  | .str secret => Json.asciiBytes (envelopeText secret)
  | _ => []

theorem loads_envelopeText {limits : JsonLimits} (h : 3 ≤ limits.depth) (secret : String) :
    limits.loads (envelopeBody (.str secret)) =
      .ok (.obj [("data", .obj [("data", .obj [("client_secret", .str secret)])])]) := by
  obtain ⟨depth, hdepth⟩ := Nat.exists_eq_add_of_le' h
  refine Json.loads_of_writtenAs ?_ ?_
  · exact Json.ascii_dumpsMember _ (Json.ascii_dumpsMember _ (Json.ascii_dumpsMember _ (Json.ascii_dumpsStr secret)))
  · rw [hdepth]
    exact Json.writtenAs_dumpsMember _ (Json.writtenAs_dumpsMember _
      (Json.writtenAs_dumpsMember _ (Json.writtenAs_dumpsStr secret)))

def dumpsVault (limits : JsonLimits) (h : 3 ≤ limits.depth) : Vault limits.loads where
  body := envelopeBody
  envelope secret := ⟨_, _, _, loads_envelopeText h secret, rfl, rfl, rfl⟩

/-- What follows a '?' is no part of the path: the two clients have one slot. -/
theorem not_slotsSeparate : ¬ ∀ (limits : JsonLimits) (vault : Vault limits.loads) (text : PyExc → List UInt8)
    (services : { s : Services // configured s = true }) (clients : Set String),
    SlotsSeparate vault text services clients := by
  intro h
  have hseparate := h ⟨1000, 4300⟩ (dumpsVault ⟨1000, 4300⟩ (by decide)) (fun _ => [])
    ⟨⟨"", "", "http://openbao:8200", "token"⟩, by decide⟩ {"acme", "acme?old"}
  have hsame : slotName "acme" = slotName "acme?old" := by decide +kernel
  refine (hseparate.distinct "acme" (.inl rfl) "acme?old" (.inr rfl) (by decide)).1 ?_
  rw [dataPath, dataPath, pathOf_path addressText_dataMount, pathOf_path addressText_dataMount, hsame]

end Admin

end Embassy
