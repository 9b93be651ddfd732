import Embassy.CatalogAtomic
import Embassy.JsonObject
import Embassy.PyString
import Embassy.PyTruth

/-!
# The manifest form (`admin/main.py`)

`manifestMutate` is the edit that `POST /manifest` hands to `update_manifest`. It changes what the form
owns and nothing else (`ManifestEdited`), it raises where the manifest has no tier 0, and the file then is
what it was (`manifestSafe`).
-/

namespace Embassy
open Lib

namespace Catalog

/-- A value of a form: a text, or an uploaded file. -/
inductive FormValue
  | text (s : String)
  | file
  deriving DecidableEq, Repr

/-- `value.strip()`; a file has no `strip`. -/
def FormValue.strip : FormValue → Except StoreExc String
  | text s => .ok (Embassy.strip s)
  | file => .error .other

/-- The names and values of a submitted form, in order. -/
abbrev Form := List (String × FormValue)

namespace Form

/-- `form.get(name)`: the last value of the name. -/
def get? (form : Form) (name : String) : Option FormValue := (form.reverse.find? fun m => m.1 = name).map Prod.snd

/-- `form.getlist(name)` -/
def getlist (form : Form) (name : String) : List FormValue := (form.filter fun m => m.1 = name).map Prod.snd

/-- `form.get(name, "").strip()` -/
def stripped (form : Form) (name : String) : Except StoreExc String := ((form.get? name).getD (.text "")).strip

/-- `zip(form.getlist("extra_name"), form.getlist("extra_value"))` -/
def extraRows (form : Form) : List (FormValue × FormValue) :=
  (form.getlist "extra_name").zip (form.getlist "extra_value")

end Form

/-! ### `manifest_update` -/

/-- `doc.setdefault(name, {})`, which then takes names as keys. -/
def setdefaultObj (doc : List (String × Json)) (name : String) : Except StoreExc (List (String × Json)) :=
  match Json.get? doc name with
  | none => .ok []
  | some (.obj members) => .ok members
  | some _ => .error .other

/-- `tier.get("tier") == 0` -/
def isTier0 (tier : List (String × Json)) : Bool := (Json.get? tier "tier").any Json.isZero

/-- The loop of `_tier0_entry`: what comes before the entry, the entry, and what comes after it. -/
def findTier0 : List Json → Except StoreExc (List Json × List (String × Json) × List Json)
  | [] => .error .other
  | .obj tier :: tiers =>
    if isTier0 tier then .ok ([], tier, tiers)
    else do
      let (before, tier0, after) ← findTier0 tiers
      return (.obj tier :: before, tier0, after)
  -- no `get`
  | _ :: _ => .error .other

/-- `_tier0_entry`; what is not a list of entries has none. -/
def tier0Entry (doc : List (String × Json)) : Except StoreExc (List Json × List (String × Json) × List Json) :=
  match Json.get? doc "access_tiers" with
  | some (.arr tiers) => findTier0 tiers
  | _ => .error .other

/-- The fields of `entity` on the form. -/
def entityFields : List String := ["name", "tax_id", "website", "country"]

/-- The flags of `security` on the form. -/
def securityFlags : List String := ["gateway_required", "direct_llm_exposure", "audit_logging"]

section
variable (form : Form)

/-- The loop over the fields of `entity`. -/
def setEntity : List String → List (String × Json) → Except StoreExc (List (String × Json))
  | [], entity => .ok entity
  | key :: keys, entity => do
    let value ← form.stripped ("entity__" ++ key)
    setEntity keys (Json.set entity key (.str value))

/-- The comprehension of `extra`, on the rows not looked at yet. -/
def collectExtra : List (FormValue × FormValue) → List (String × Json) → Except StoreExc (List (String × Json))
  | [], extra => .ok extra
  | (name, value) :: rows, extra => do
    let name ← name.strip
    if name = "" then collectExtra rows extra
    else
      let value ← value.strip
      collectExtra rows (Json.set extra name (.str value))

/-- `form.get(f"security__{key}") == "on"` -/
def flagOn (key : String) : Bool := form.get? ("security__" ++ key) = some (.text "on")

/-- The loop over the flags of `security`. -/
def setSecurity (keys : List String) (security : List (String × Json)) : List (String × Json) :=
  keys.foldl (fun security key => Json.set security key (.bool (flagOn form key))) security

/-- The tier-0 entry with the rate limit and the extra configuration of the form. -/
def setTier0 (rateLimit : String) (extra tier0 : List (String × Json)) : List (String × Json) :=
  let tier0 := Json.set tier0 "rate_limit" (.str rateLimit)
  if extra = [] then Json.erase tier0 "extra" else Json.set tier0 "extra" (.obj extra)

/-- `mutate` of `manifest_update`; `today` is the date it writes. -/
def manifestMutate (today : String) : Json → Except StoreExc Json
  | .obj doc => do
    let entity ← setEntity form entityFields (← setdefaultObj doc "entity")
    let doc := Json.set doc "entity" (.obj entity)
    let (before, tier0, after) ← tier0Entry doc
    let rateLimit ← form.stripped "rate_limit"
    let extra ← collectExtra form.extraRows []
    let doc := Json.set doc "access_tiers" (.arr (before ++ .obj (setTier0 rateLimit extra tier0) :: after))
    let security ← setdefaultObj doc "security"
    let doc := Json.set doc "security" (.obj (setSecurity form securityFlags security))
    return .obj (Json.set doc "last_updated" (.str today))
  | _ => .error .other

end

/-- The same values, apart from the names in `owned`. -/
def SameBut (owned : List String) (old new : List (String × Json)) : Prop :=
  ∀ name ∉ owned, Json.get? new name = Json.get? old name

/-- The object under the name, or the empty one where there is no such name. -/
def ObjectAt (doc : List (String × Json)) (name : String) (members : List (String × Json)) : Prop :=
  Json.get? doc name = some (.obj members) ∨ Json.get? doc name = none ∧ members = []

/-- The trimmed value of the last row whose trimmed name is `name`; rows without a name do not count. -/
def rowValue (rows : List (FormValue × FormValue)) (name : String) : Option String :=
  if name = "" then none
  else (rows.reverse.find? fun row => row.1.strip.toOption = some name).bind fun row => row.2.strip.toOption

section
variable (form : Form)

/-- What may become of the tier-0 entry. -/
structure TierEdited (old new : List (String × Json)) : Prop where
  frame : SameBut ["rate_limit", "extra"] old new
  rateLimit : ∃ s, form.stripped "rate_limit" = .ok s ∧ Json.get? new "rate_limit" = some (.str s)
  /-- The rows of the form, or nothing where no row has a name. -/
  extra : (Json.get? new "extra" = none ∧ ∀ name, rowValue form.extraRows name = none) ∨
    ∃ extra, Json.get? new "extra" = some (.obj extra) ∧ extra ≠ [] ∧
      ∀ name, Json.get? extra name = (rowValue form.extraRows name).map Json.str

/-- What may become of the manifest. -/
structure ManifestEdited (today : String) (old new : List (String × Json)) : Prop where
  frame : SameBut ["entity", "access_tiers", "security", "last_updated"] old new
  entity : ∃ members members', ObjectAt old "entity" members ∧ Json.get? new "entity" = some (.obj members') ∧
    SameBut entityFields members members' ∧ ∀ key ∈ entityFields,
      ∃ s, form.stripped ("entity__" ++ key) = .ok s ∧ Json.get? members' key = some (.str s)
  /-- Of the entries only the first with tier 0 changes. -/
  tiers : ∃ before tier0 tier0' after,
    Json.get? old "access_tiers" = some (.arr (before ++ .obj tier0 :: after)) ∧
    Json.get? new "access_tiers" = some (.arr (before ++ .obj tier0' :: after)) ∧
    (∀ tier ∈ before, ∃ members, tier = .obj members ∧ isTier0 members = false) ∧ isTier0 tier0 = true ∧
    TierEdited form tier0 tier0'
  security : ∃ members members', ObjectAt old "security" members ∧
    Json.get? new "security" = some (.obj members') ∧ SameBut securityFlags members members' ∧
    ∀ key ∈ securityFlags, Json.get? members' key = some (.bool (flagOn form key))
  lastUpdated : Json.get? new "last_updated" = some (.str today)

def HasTier0 (doc : List (String × Json)) : Prop :=
  ∃ tiers tier, Json.get? doc "access_tiers" = some (.arr tiers) ∧ .obj tier ∈ tiers ∧ isTier0 tier = true

end

/-! ### The parts of the edit -/

section
variable {form : Form} {doc old new entity : List (String × Json)} {name : String} {v : Json}
  {rows : List (FormValue × FormValue)}

theorem SameBut.refl (owned : List String) (old : List (String × Json)) : SameBut owned old old :=
  fun _ _ => rfl

theorem SameBut.set {owned : List String} (h : SameBut owned old new) (hname : name ∈ owned) (v : Json) :
    SameBut owned old (Json.set new name v) := by
  intro n hn
  have hne : n ≠ name := fun heq => hn (heq ▸ hname)
  rw [Json.get?_set, if_neg hne, h n hn]

theorem SameBut.erase {owned : List String} (h : SameBut owned old new) (hname : name ∈ owned) :
    SameBut owned old (Json.erase new name) := by
  intro n hn
  have hne : n ≠ name := fun heq => hn (heq ▸ hname)
  rw [Json.get?_erase, if_neg hne, h n hn]

theorem objectAt_of_setdefaultObj (h : setdefaultObj doc name = .ok old) : ObjectAt doc name old := by
  unfold setdefaultObj at h
  split at h
  · obtain rfl := Except.ok.inj h
    exact .inr ⟨‹_›, rfl⟩
  · obtain rfl := Except.ok.inj h
    exact .inl ‹_›
  · cases h

theorem setEntity_spec {keys : List String} (h : setEntity form keys entity = .ok new) (hnd : keys.Nodup) :
    (∀ n ∉ keys, Json.get? new n = Json.get? entity n) ∧
      ∀ key ∈ keys, ∃ s, form.stripped ("entity__" ++ key) = .ok s ∧ Json.get? new key = some (.str s) := by
  induction keys generalizing entity with
  | nil =>
    obtain rfl := Except.ok.inj h
    exact ⟨fun _ _ => rfl, fun _ hkey => by cases hkey⟩
  | cons key keys ih =>
    obtain ⟨s, hs, h⟩ := Json.bind_eq_ok h
    obtain ⟨hnot, hnd⟩ := List.nodup_cons.1 hnd
    obtain ⟨hframe, hfields⟩ := ih h hnd
    refine ⟨fun n hn => ?_, fun k hk => ?_⟩
    · rw [List.mem_cons, not_or] at hn
      rw [hframe n hn.2, Json.get?_set, if_neg hn.1]
    · rcases List.mem_cons.1 hk with rfl | hk
      · exact ⟨s, hs, by rw [hframe k hnot, Json.get?_set, if_pos rfl]⟩
      · exact hfields k hk

theorem setSecurity_spec (form : Form) (keys : List String) (security : List (String × Json)) :
    (∀ n ∉ keys, Json.get? (setSecurity form keys security) n = Json.get? security n) ∧
      ∀ key ∈ keys, Json.get? (setSecurity form keys security) key = some (.bool (flagOn form key)) := by
  induction keys using List.reverseRecOn with
  | nil => exact ⟨fun _ _ => rfl, fun _ hkey => by cases hkey⟩
  | append_singleton keys key ih =>
    have hstep : setSecurity form (keys ++ [key]) security =
        Json.set (setSecurity form keys security) key (.bool (flagOn form key)) := List.foldl_concat ..
    rw [hstep]
    refine ⟨fun n hn => ?_, fun k hk => ?_⟩
    · rw [List.mem_append, List.mem_singleton, not_or] at hn
      rw [Json.get?_set, if_neg hn.2, ih.1 n hn.1]
    · rw [Json.get?_set]
      split <;> rename_i heq
      · rw [heq]
      · rcases List.mem_append.1 hk with hk | hk
        · exact ih.2 k hk
        · exact absurd (List.mem_singleton.1 hk) heq

theorem findTier0_spec {tiers before after : List Json} {tier0 : List (String × Json)}
    (h : findTier0 tiers = .ok (before, tier0, after)) : tiers = before ++ .obj tier0 :: after ∧
      (∀ tier ∈ before, ∃ members, tier = .obj members ∧ isTier0 members = false) ∧ isTier0 tier0 = true := by
  induction tiers generalizing before with
  | nil => cases h
  | cons tier tiers ih =>
    cases tier with
    | obj members =>
      rw [findTier0] at h
      split at h <;> rename_i hzero
      · obtain ⟨rfl, rfl, rfl⟩ : [] = before ∧ members = tier0 ∧ tiers = after := by simpa using h
        exact ⟨rfl, by simp, hzero⟩
      · obtain ⟨⟨before', tier', after'⟩, hrest, h⟩ := Json.bind_eq_ok h
        obtain ⟨rfl, rfl, rfl⟩ : .obj members :: before' = before ∧ tier' = tier0 ∧ after' = after := by
          simpa [Pure.pure, Except.pure] using h
        obtain ⟨heq, hbefore, htier⟩ := ih hrest
        refine ⟨by rw [heq]; rfl, fun t ht => ?_, htier⟩
        rcases List.mem_cons.1 ht with rfl | ht
        · exact ⟨members, rfl, Bool.not_eq_true _ ▸ hzero⟩
        · exact hbefore t ht
    | _ => cases h

theorem tier0Entry_spec {before after : List Json} {tier0 : List (String × Json)}
    (h : tier0Entry doc = .ok (before, tier0, after)) :
    Json.get? doc "access_tiers" = some (.arr (before ++ .obj tier0 :: after)) ∧
      (∀ tier ∈ before, ∃ members, tier = .obj members ∧ isTier0 members = false) ∧ isTier0 tier0 = true := by
  unfold tier0Entry at h
  split at h
  · rename_i tiers htiers
    obtain ⟨rfl, hbefore, htier⟩ := findTier0_spec h
    exact ⟨htiers, hbefore, htier⟩
  · cases h

theorem rowValue_nil (name : String) : rowValue [] name = none := by
  unfold rowValue
  split <;> rfl

theorem rowValue_append (rows rows' : List (FormValue × FormValue)) (name : String)
    (htext : ∀ row ∈ rows', row.1.strip.toOption = some name → name ≠ "" → row.2.strip.toOption.isSome) :
    rowValue (rows ++ rows') name = (rowValue rows' name).or (rowValue rows name) := by
  unfold rowValue
  split <;> rename_i hname
  · rfl
  · rw [List.reverse_append, List.find?_append]
    cases hfind : rows'.reverse.find? fun row => decide (row.1.strip.toOption = some name) with
    | none => rfl
    | some row =>
      have hmem := List.mem_reverse.1 (List.mem_of_find?_eq_some hfind)
      have hrow : row.1.strip.toOption = some name := by simpa using List.find?_some hfind
      obtain ⟨value, hvalue⟩ := Option.isSome_iff_exists.1 (htext row hmem hrow hname)
      simp [hvalue]

theorem collectExtra_spec (done : List (FormValue × FormValue)) {extra extra' : List (String × Json)}
    (hdone : ∀ name, Json.get? extra name = (rowValue done name).map Json.str)
    (hnil : extra = [] ↔ ∀ name, rowValue done name = none) (h : collectExtra rows extra = .ok extra') :
    (∀ name, Json.get? extra' name = (rowValue (done ++ rows) name).map Json.str) ∧
      (extra' = [] ↔ ∀ name, rowValue (done ++ rows) name = none) := by
  induction rows generalizing extra done with
  | nil =>
    obtain rfl := Except.ok.inj h
    rw [List.append_nil]
    exact ⟨hdone, hnil⟩
  | cons row rows ih =>
    obtain ⟨rowName, value⟩ := row
    obtain ⟨name, hname, h⟩ := Json.bind_eq_ok h
    rw [List.append_cons]
    split at h <;> rename_i hblank
    · -- no name: the row does not count
      have hsame : ∀ n, rowValue (done ++ [(rowName, value)]) n = rowValue done n := by
        intro n
        have hnone : rowValue [(rowName, value)] n = none := by
          unfold rowValue
          split <;> rename_i hn
          · rfl
          · have hne : name ≠ n := fun heq => hn (heq ▸ hblank)
            simp [hname, Except.toOption, hne]
        rw [rowValue_append, hnone, Option.none_or]
        rintro row hrow hn hne
        obtain rfl := List.mem_singleton.1 hrow
        rw [hname] at hn
        exact absurd ((Option.some.inj hn).symm.trans hblank) hne
      exact ih _ (fun n => by rw [hdone n, hsame n]) (by simpa only [hsame] using hnil) h
    · obtain ⟨text, htext, h⟩ := Json.bind_eq_ok h
      have hrow : ∀ n, rowValue (done ++ [(rowName, value)]) n = if n = name then some text else rowValue done n := by
        intro n
        rw [rowValue_append]
        · have hlast : rowValue [(rowName, value)] n = if n = name then some text else none := by
            unfold rowValue
            by_cases hn : n = name
            · subst hn
              simp [hblank, hname, htext, Except.toOption]
            · by_cases hempty : n = "" <;> simp [hn, hblank, hempty, hname, Except.toOption, Ne.symm hn]
          rw [hlast]
          split <;> rfl
        · rintro row hrow - -
          obtain rfl := List.mem_singleton.1 hrow
          rw [htext]
          rfl
      refine ih _ (fun n => ?_) ?_ h
      · rw [Json.get?_set, hrow n, hdone n]
        split <;> rfl
      · refine iff_of_false ?_ ?_
        · intro hempty
          have hget := Json.get?_set extra name name (.str text)
          rw [hempty, if_pos rfl] at hget
          cases hget
        · intro hall
          have hsome := hall name
          rw [hrow name, if_pos rfl] at hsome
          cases hsome

theorem tierEdited_setTier0 {rateLimit : String} {extra tier0 : List (String × Json)}
    (hrate : form.stripped "rate_limit" = .ok rateLimit) (hextra : collectExtra form.extraRows [] = .ok extra) :
    TierEdited form tier0 (setTier0 rateLimit extra tier0) := by
  have hspec := collectExtra_spec [] (fun name => by rw [rowValue_nil]; rfl)
    (iff_of_true rfl rowValue_nil) hextra
  rw [List.nil_append] at hspec
  have hset : SameBut ["rate_limit", "extra"] tier0 (Json.set tier0 "rate_limit" (.str rateLimit)) :=
    (SameBut.refl _ tier0).set (by simp) _
  unfold setTier0
  simp only
  split <;> rename_i hempty
  · refine ⟨hset.erase (by simp), ⟨rateLimit, hrate, ?_⟩, .inl ⟨?_, hspec.2.1 hempty⟩⟩
    · rw [Json.get?_erase, if_neg (by decide), Json.get?_set, if_pos rfl]
    · rw [Json.get?_erase, if_pos rfl]
  · refine ⟨hset.set (by simp) _, ⟨rateLimit, hrate, ?_⟩, .inr ⟨extra, ?_, hempty, hspec.1⟩⟩
    · rw [Json.get?_set, if_neg (by decide), Json.get?_set, if_pos rfl]
    · rw [Json.get?_set, if_pos rfl]

theorem manifestEdited_of_mutate {today : String} {doc' : Json}
    (h : manifestMutate form today (.obj old) = .ok doc') :
    ∃ new, doc' = .obj new ∧ ManifestEdited form today old new := by
  obtain ⟨entity, hentity, h⟩ := Json.bind_eq_ok h
  obtain ⟨entity', hentity', h⟩ := Json.bind_eq_ok h
  obtain ⟨⟨before, tier0, after⟩, htier0, h⟩ := Json.bind_eq_ok h
  obtain ⟨rateLimit, hrate, h⟩ := Json.bind_eq_ok h
  obtain ⟨extra, hextra, h⟩ := Json.bind_eq_ok h
  obtain ⟨security, hsecurity, h⟩ := Json.bind_eq_ok h
  obtain rfl := Except.ok.inj h
  obtain ⟨htiers, hbefore, hzero⟩ := tier0Entry_spec htier0
  rw [Json.get?_set, if_neg (by decide)] at htiers
  have hsecurity := objectAt_of_setdefaultObj hsecurity
  rw [ObjectAt, Json.get?_set, if_neg (by decide), Json.get?_set, if_neg (by decide)] at hsecurity
  obtain ⟨hframe, hfields⟩ := setEntity_spec hentity' (by decide)
  obtain ⟨hsframe, hflags⟩ := setSecurity_spec form securityFlags security
  refine ⟨_, rfl, ?_, ?_, ?_, ?_, ?_⟩
  · refine SameBut.set (.set (.set (.set (.refl _ _) ?_ _) ?_ _) ?_ _) ?_ _ <;> simp
  · refine ⟨entity, entity', objectAt_of_setdefaultObj hentity, ?_, hframe, hfields⟩
    simp [Json.get?_set]
  · refine ⟨before, tier0, _, after, htiers, ?_, hbefore, hzero, tierEdited_setTier0 hrate hextra⟩
    simp [Json.get?_set]
  · refine ⟨security, _, hsecurity, ?_, hsframe, hflags⟩
    simp [Json.get?_set]
  · rw [Json.get?_set, if_pos rfl]

theorem hasTier0_of_mutate {today : String} {doc' : Json} (h : manifestMutate form today (.obj old) = .ok doc') :
    HasTier0 old := by
  obtain ⟨new, -, hedited⟩ := manifestEdited_of_mutate h
  obtain ⟨before, tier0, -, after, htiers, -, -, hzero, -⟩ := hedited.tiers
  exact ⟨_, tier0, htiers, by simp, hzero⟩

/-! ### The file -/

theorem Inv.get?_of_not_returned {codec : Codec} {op : Op} {fs : Fs} {s : State} {p : Path}
    (h : Inv codec op fs s) (hp : p ∈ targets) (hret : ∀ path doc, s.phase ≠ .returned path doc) :
    s.fs.get? p = fs.get? p := by
  have hmade : ∀ {path doc tmp file}, Edited codec op fs path doc → Made fs s.fs path tmp file →
      s.fs.get? p = fs.get? p := by
    intro path doc tmp file hedited hm
    have hne : p ≠ tmp := by
      rintro rfl
      exact not_swept_of_mem_targets hp (hm.tempName hedited).swept
    rw [hm.get? p, if_neg hne]
  unfold Inv at h
  split at h
  · exact h p
  · exact h p
  · exact h.1 p
  · exact h.1 p
  · exact hmade h.1 h.2.choose_spec
  · exact hmade h.1 h.2.choose_spec
  · exact hmade h.1 h.2.choose_spec
  · exact hmade h.1 h.2.2
  · exact hmade h.1 h.2.2
  · exact hmade h.1 h.2.2
  · exact hmade h.1 h.2.2
  · exact absurd ‹_› (hret _ _)

end

section
variable (codec : Codec) (form : Form) (today : String) (fs : Fs)

/-- The manifest is this object. -/
def Stored (old : List (String × Json)) : Prop :=
  ∃ file, fs.get? manifestPath = some file ∧ codec.load file.content = .ok (.obj old)

/-- `POST /manifest` -/
def manifestUpdate : Op := .updateManifest (manifestMutate form today)

/-- What is promised of it at every point. -/
structure ManifestSafe : Prop where
  /-- Unless it returns, the file is what it was. -/
  failed : ∀ s, Reaches (step codec (manifestUpdate form today)) anyAct ⟨fs, .start⟩ s →
    (∀ path doc, s.phase ≠ .returned path doc) → s.fs.get? manifestPath = fs.get? manifestPath
  /-- If it returns, the file holds the old document but for what the form owns. -/
  returned : ∀ s path doc, Reaches (step codec (manifestUpdate form today)) anyAct ⟨fs, .start⟩ s →
    s.phase = .returned path doc → ∃ old new text, Stored codec fs old ∧ ManifestEdited form today old new ∧
      codec.dump (.obj new) = (text, none) ∧ s.fs.get? manifestPath = some ⟨text ++ [0x0A], 0o644⟩
  /-- Without a tier 0 it does not return. -/
  tier0 : ∀ old, Stored codec fs old → ¬ HasTier0 old → ∀ s path doc,
    Reaches (step codec (manifestUpdate form today)) anyAct ⟨fs, .start⟩ s → s.phase ≠ .returned path doc

end

/-- For every form and every manifest, at every point where the request fails or is killed. -/
theorem manifestSafe (codec : Codec) (form : Form) (today : String) (fs : Fs) :
    ManifestSafe codec form today fs := by
  have hreturned : ∀ s path doc, Reaches (step codec (manifestUpdate form today)) anyAct ⟨fs, .start⟩ s →
      s.phase = .returned path doc → ∃ old new, Stored codec fs old ∧ doc = .obj new ∧
        ManifestEdited form today old new ∧ HasTier0 old ∧ (codec.dump doc).2 = none ∧
        s.fs.get? manifestPath = some ⟨codec.text doc, 0o644⟩ := by
    intro s path doc hreach hphase
    have hinv := Inv.of_reaches hreach
    rw [Inv, hphase] at hinv
    obtain ⟨⟨hpath, file, old, hfile, hload, hedit⟩, hdump, hget⟩ := hinv
    obtain rfl : manifestPath = path := Except.ok.inj hpath
    cases old with
    | obj old =>
      obtain ⟨new, rfl, hedited⟩ := manifestEdited_of_mutate hedit
      exact ⟨old, new, ⟨file, hfile, hload⟩, rfl, hedited, hasTier0_of_mutate hedit, hdump,
        by rw [hget, if_pos rfl]⟩
    | _ => cases hedit
  refine ⟨fun s hreach hret => ?_, fun s path doc hreach hphase => ?_,
    fun old hstored hnone s path doc hreach hphase => ?_⟩
  · exact (Inv.of_reaches hreach).get?_of_not_returned (List.mem_append_right _ (List.mem_singleton_self _)) hret
  · obtain ⟨old, new, hstored, rfl, hedited, -, hdump, hget⟩ := hreturned s path doc hreach hphase
    refine ⟨old, new, (codec.dump (.obj new)).1, hstored, hedited, Prod.ext rfl hdump, ?_⟩
    rw [hget, Codec.text]
    split <;> rename_i text hd
    · rw [hd]
    · rw [hd] at hdump
      cases hdump
  · obtain ⟨old', -, ⟨file', hfile', hload'⟩, -, -, hzero, -⟩ := hreturned s path doc hreach hphase
    obtain ⟨file, hfile, hload⟩ := hstored
    rw [hfile] at hfile'
    obtain rfl := Option.some.inj hfile'
    rw [hload] at hload'
    obtain rfl := Json.obj.inj (Except.ok.inj hload')
    exact hnone hzero

/-- Where the edit goes through and can be written, and nothing else raises, it is stored. -/
theorem exists_manifest_returned {codec : Codec} {form : Form} {today : String} {fs : Fs}
    {old : List (String × Json)} {doc : Json} (random : String) (hstored : Stored codec fs old)
    (hmutate : manifestMutate form today (.obj old) = .ok doc) (hdump : (codec.dump doc).2 = none)
    (hfree : fs.get? (tempPath manifestPath random) = none) :
    ∃ s, Reaches (step codec (manifestUpdate form today)) anyAct ⟨fs, .start⟩ s ∧
      s.phase = .returned manifestPath doc := by
  obtain ⟨file, hfile, hload⟩ := hstored
  exact exists_returned random ⟨rfl, file, .obj old, hfile, hload, hmutate⟩ hdump hfree

/-- The second tier-0 entry and what is not on the form stay; a row without a name does not count. -/
example : manifestMutate
    [("entity__name", .text " New "), ("rate_limit", .text "60/h"), ("extra_name", .text "a"),
      ("extra_value", .text "1"), ("extra_name", .text " "), ("extra_value", .text "2")] "2026-01-02"
    (.obj [("version", .num "1"), ("access_tiers", .arr [.obj [("tier", .num "1")], .obj [("tier", .num "0")],
      .obj [("tier", .num "0")]])]) =
    .ok (.obj [("version", .num "1"),
      ("access_tiers", .arr [.obj [("tier", .num "1")],
        .obj [("tier", .num "0"), ("rate_limit", .str "60/h"), ("extra", .obj [("a", .str "1")])],
        .obj [("tier", .num "0")]]),
      ("entity", .obj [("name", .str "New"), ("tax_id", .str ""), ("website", .str ""), ("country", .str "")]),
      ("security", .obj [("gateway_required", .bool false), ("direct_llm_exposure", .bool false),
        ("audit_logging", .bool false)]),
      ("last_updated", .str "2026-01-02")]) := by rfl

end Catalog

end Embassy
