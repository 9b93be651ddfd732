import Embassy.CatalogStore
import Embassy.JsonWrite
import Embassy.SchemaTypes

/-!
# Catalogs on disk (`admin/catalog_store.py`)

`Python.codec` is `json.load` and `json.dump` on the bytes of a file. What it writes it reads back as the
same value (`saved`, `load_text`), so a catalog that is saved is a catalog, with the same items, and they
stay as valid as they were.

The limits of the interpreter, `repr`, and what reaches the file before a dump raises are parameters.
-/

namespace Embassy
open Lib

namespace Json

mutual

/-- A value with its strings as code points. -/
def ofJson : Json → Doc
  | .null => .null
  | .bool b => .bool b
  | .num text => .num text
  | .str s => .str (points s)
  | .arr vs => .arr (ofJsons vs)
  | .obj ms => .obj (ofMembers ms)

def ofJsons : List Json → List Doc
  | [] => []
  | v :: vs => ofJson v :: ofJsons vs

def ofMembers : List (String × Json) → List (List ℕ × Doc)
  | [] => []
  | (name, v) :: ms => (points name, ofJson v) :: ofMembers ms

end

/-- What the value is read as after it was written. -/
def saved (f : FloatRepr) (v : Json) : Json := toJson (norm f (ofJson v))

variable {f : FloatRepr} {v : Json} {members : List (String × Json)}

theorem ofJsons_eq (vs : List Json) : ofJsons vs = vs.map ofJson := by
  induction vs with
  | nil => rfl
  | cons v vs ih => rw [ofJsons, ih, List.map_cons]

theorem ofMembers_eq (ms : List (String × Json)) : ofMembers ms = ms.map fun m => (points m.1, ofJson m.2) := by
  induction ms with
  | nil => rfl
  | cons m ms ih => rw [ofMembers, ih, List.map_cons]

@[simp] theorem saved_str (s : String) : saved f (.str s) = .str s :=
  congrArg Json.str (Agent.ofPoints_points s)

@[simp] theorem saved_arr (vs : List Json) : saved f (.arr vs) = .arr (vs.map (saved f)) := by
  rw [saved, ofJson, norm, toJson, toJsons_eq, norms_eq, ofJsons_eq, List.map_map, List.map_map]
  rfl

theorem get?_map_toMember (ms : List (List ℕ × Doc)) (h : ∀ m ∈ ms, ∃ s, m.1 = points s) (name : String) :
    Json.get? (ms.map toMember) name = (Agent.docGet? ms (points name)).map toJson := by
  have hname : ∀ m ∈ ms.reverse, (decide (ofPoints m.1 = name)) = decide (m.1 = points name) := by
    intro m hm
    obtain ⟨s, hs⟩ := h m (List.mem_reverse.1 hm)
    rw [hs, Agent.ofPoints_points, decide_eq_decide, points_injective.eq_iff]
  rw [Json.get?, Agent.docGet?, ← List.map_reverse, List.find?_map, Option.map_map, Option.map_map]
  have hfind : ms.reverse.find? ((fun m : String × Json => decide (m.1 = name)) ∘ toMember) =
      ms.reverse.find? fun m => decide (m.1 = points name) := List.find?_congr hname
  rw [hfind]
  rfl

theorem docGet?_ofMembers (members : List (String × Json)) (name : String) :
    Agent.docGet? (ofMembers members) (points name) = (Json.get? members name).map ofJson := by
  rw [ofMembers_eq, Json.get?, Agent.docGet?, ← List.map_reverse, List.find?_map, Option.map_map, Option.map_map]
  have hfind : members.reverse.find? ((fun m : List ℕ × Doc => decide (m.1 = points name)) ∘
      fun m : String × Json => (points m.1, ofJson m.2)) = members.reverse.find? fun m => decide (m.1 = name) :=
    List.find?_congr fun m _ => decide_eq_decide.2 points_injective.eq_iff
  rw [hfind]
  rfl

theorem saved_obj (members : List (String × Json)) : ∃ members', saved f (.obj members) = .obj members' ∧
    ∀ name, Json.get? members' name = (Json.get? members name).map (saved f) := by
  refine ⟨_, rfl, fun name => ?_⟩
  rw [toMembers_eq, get?_map_toMember]
  · have hlast : (Dict.ofList (normMembers f (ofMembers members))).get? (points name) =
        Agent.docGet? (normMembers f (ofMembers members)) (points name) := Dict.get?_ofList _ _
    rw [docGet?_entries, hlast, normMembers_eq, docGet?_map, docGet?_ofMembers, Option.map_map, Option.map_map]
    rfl
  · intro m hm
    obtain ⟨m', hm', rfl⟩ := mem_norm_obj hm
    rw [ofMembers_eq] at hm'
    obtain ⟨m'', -, rfl⟩ := List.mem_map.1 hm'
    exact ⟨_, rfl⟩

end Json

namespace Json

def isNumber (maxDigits : ℕ) (text : String) : Bool :=
  match scanDoc maxDigits 0 text.toList with
  | .ok (.num text', []) => text' = text
  | _ => false

/-- The value nests at most so deep, and `repr` takes its numbers. -/
def fits (maxDigits : ℕ) : ℕ → Json → Bool
  | _, .null => true
  | _, .bool _ => true
  | _, .str _ => true
  | _, .num text => isNumber maxDigits text
  | 0, .arr _ => false
  | 0, .obj _ => false
  | depth + 1, .arr vs => vs.all (fits maxDigits depth)
  | depth + 1, .obj ms => ms.all fun m => fits maxDigits depth m.2

variable {maxDigits depth : ℕ}

theorem loadedStr_points (s : String) : LoadedStr (points s) := by
  have hall : ∀ n ∈ points s, n < 0x110000 ∧ isHigh n = false := by
    intro n hn
    obtain ⟨c, -, rfl⟩ := List.mem_map.1 hn
    have hc := toNat_of_lt_surrogates c
    simp only [isHigh, decide_eq_false_iff_not]
    omega
  refine ⟨fun n hn => (hall n hn).1, ?_⟩
  have hchain : ∀ ps : List ℕ, (∀ n ∈ ps, isHigh n = false) → Joined ps := by
    intro ps hps
    induction ps with
    | nil => exact .nil
    | cons n ps ih =>
      obtain ⟨hn, hps⟩ := List.forall_mem_cons.1 hps
      exact (ih hps).cons fun _ _ hpair => by rw [hn] at hpair; exact Bool.false_ne_true hpair.1
  exact hchain _ fun n hn => (hall n hn).2

theorem loadedNum_of_isNumber {text : String} (h : isNumber maxDigits text = true) : LoadedNum maxDigits text := by
  unfold isNumber at h
  split at h
  · rename_i text' hscan
    obtain rfl := of_decide_eq_true h
    have hvalue : Value maxDigits 0 _ _ _ := (follows_scanDoc maxDigits 0).sound hscan
    cases loaded_of_value hvalue with
    | num h => exact h
  · cases h

theorem LoadedScalar.loaded {v : Doc} (h : LoadedScalar maxDigits v) (depth : ℕ) : Loaded maxDigits depth v := by
  cases depth with
  | zero => exact h
  | succ depth => exact .inl h

theorem loaded_of_fits : ∀ {depth : ℕ} {v : Json}, fits maxDigits depth v = true → Loaded maxDigits depth (ofJson v)
  | depth, .null, _ => LoadedScalar.null.loaded depth
  | depth, .bool b, _ => (LoadedScalar.bool b).loaded depth
  | depth, .str s, _ => (LoadedScalar.str (loadedStr_points s)).loaded depth
  | depth, .num text, h => by
    have hnumber : isNumber maxDigits text = true := by cases depth <;> exact h
    exact (LoadedScalar.num (loadedNum_of_isNumber hnumber)).loaded depth
  | depth + 1, .arr vs, h => by
    refine .inr (.inl ⟨_, rfl, fun u hu => ?_⟩)
    rw [ofJsons_eq] at hu
    obtain ⟨v, hv, rfl⟩ := List.mem_map.1 hu
    exact loaded_of_fits (List.all_eq_true.1 h v hv)
  | depth + 1, .obj ms, h => by
    refine .inr (.inr ⟨_, rfl, fun m hm => ?_⟩)
    rw [ofMembers_eq] at hm
    obtain ⟨m', hm', rfl⟩ := List.mem_map.1 hm
    exact ⟨loadedStr_points m'.1, loaded_of_fits (List.all_eq_true.1 h m' hm')⟩

theorem Loaded.mono {depth' : ℕ} {v : Doc} (h : Loaded maxDigits depth v) (hle : depth ≤ depth') :
    Loaded maxDigits depth' v := by
  induction depth generalizing depth' v with
  | zero => exact LoadedScalar.loaded h depth'
  | succ depth ih =>
    obtain ⟨depth', rfl⟩ := Nat.exists_eq_add_of_lt hle
    rcases h with h | ⟨vs, rfl, hvs⟩ | ⟨ms, rfl, hms⟩
    · exact .inl h
    · exact .inr (.inl ⟨vs, rfl, fun u hu => ih (hvs u hu) (by omega)⟩)
    · exact .inr (.inr ⟨ms, rfl, fun m hm => ⟨(hms m hm).1, ih (hms m hm).2 (by omega)⟩⟩)

end Json

namespace Catalog
open Json

/-- `bytes.decode("utf-8")` -/
def decodeUtf8Strict (bytes : List UInt8) : Option String := String.fromUTF8? ⟨bytes.toArray⟩

/-- What the interpreter brings with it. -/
structure Python where
  limits : JsonLimits
  float : FloatRepr
  /-- How deep a document may nest for `json.dump`; the scanner, which is C, has no less room. -/
  room : ℕ
  room_le : room ≤ limits.depth
  /-- What has been written when a dump raises. -/
  cut : Json → List UInt8
  /-- `repr` of a value, which saving does not change. -/
  repr : Json → String
  repr_saved : ∀ v, repr (saved float v) = repr v

namespace Python
variable (py : Python)

/-- `json.load` of a file that is opened as UTF-8, and `json.dump(doc, f, indent=2)`, which raises where the document
nests too deep or a number has too many digits. -/
def codec : Codec where
  load bytes :=
    match decodeUtf8Strict bytes with
    | none => .error .unicodeDecodeError
    | some text => (py.limits.loadsText text).map toJson
  dump doc :=
    if fits py.limits.maxDigits py.room doc then ((written py.float (some 2) (ofJson doc)).toUTF8.data.toList, none)
    else (py.cut doc, some .other)

variable {py}

theorem decodeUtf8Strict_toUTF8 (s : String) : decodeUtf8Strict s.toUTF8.data.toList = some s := by
  rw [decodeUtf8Strict, Array.toArray_toList, String.fromUTF8?]
  exact dif_pos s.isValidUTF8

theorem load_text {doc : Json} (h : (py.codec.dump doc).2 = none) :
    py.codec.load (py.codec.text doc) = .ok (saved py.float doc) := by
  have hfits : fits py.limits.maxDigits py.room doc = true := by
    by_contra hno
    rw [codec] at h
    simp [hno] at h
  have hdump : py.codec.dump doc = ((written py.float (some 2) (ofJson doc)).toUTF8.data.toList, none) := if_pos hfits
  have htext : py.codec.text doc = (written py.float (some 2) (ofJson doc) ++ "\n").toUTF8.data.toList := by
    rw [Codec.text, hdump, String.toUTF8_eq_toByteArray, String.toUTF8_eq_toByteArray, String.toByteArray_append,
      ByteArray.toList_data_append]
    rfl
  have hws : ∀ c ∈ "\n".toList, isWs c = true := List.forall_mem_singleton.2 rfl
  have hloads := loadsText_written ((loaded_of_fits hfits).mono py.room_le) py.float (some 2) hws
  rw [htext, codec]
  simp only [decodeUtf8Strict_toUTF8, hloads]
  rfl

end Python

/-! ### Catalogs and their items -/

section
variable {f : FloatRepr} {repr : Json → String} {item item' : List (String × Json)} {doc : Json} {kind : String}

/-- An item of a catalog of this `@type`. -/
def GoodItem (repr : Json → String) (itemType : String) (v : Json) : Prop :=
  ∃ item, v = .obj item ∧ validateItem repr item = .ok () ∧ Json.get? item "@type" = some (.str itemType)

/-- A catalog with such items. -/
structure GoodCatalog (repr : Json → String) (itemType : String) (doc : Json) : Prop where
  isCatalog : IsCatalog doc
  items : ∀ v ∈ entries doc, GoodItem repr itemType v

theorem forM_eq_ok {α : Type} {check : α → Except ItemExc Unit} {xs : List α} :
    xs.forM check = .ok () ↔ ∀ x ∈ xs, check x = .ok () := by
  induction xs with
  | nil => simp [pure, Except.pure]
  | cons x xs ih =>
    rw [List.forall_mem_cons, ← ih]
    change (check x >>= fun _ => xs.forM check) = .ok () ↔ _
    constructor
    · intro h
      obtain ⟨⟨⟩, hx, hxs⟩ := bind_eq_ok h
      exact ⟨hx, hxs⟩
    · rintro ⟨hx, hxs⟩
      rw [hx]
      exact hxs

theorem inSet_eq_true {strs : List String} {o : Option Json} :
    Json.inSet strs o = .ok true ↔ ∃ s ∈ strs, o = some (.str s) := by
  rcases o with _ | v
  · simp [Json.inSet]
  · cases v <;> simp [Json.inSet]

theorem validateItem_eq_ok : validateItem repr item = .ok () ↔
    ∃ itemType ∈ coreFields.map Prod.fst, Json.get? item "@type" = some (.str itemType) ∧
      (∀ field ∈ fieldsOf itemType, field.required = true → strip (shown repr item field.name) ≠ "") ∧
      ∃ props, extraOf item = .ok props ∧ ∀ p ∈ props, validateProperty repr p = .ok () := by
  have hextra : (do (← extraOf item).forM (validateProperty repr)) = .ok () ↔
      ∃ props, extraOf item = .ok props ∧ ∀ p ∈ props, validateProperty repr p = .ok () := by
    rcases extraOf item with e | props
    · simp [bind, Except.bind]
    · simpa [bind, Except.bind] using forM_eq_ok
  rw [← hextra]
  constructor
  · intro h
    unfold validateItem at h
    split at h
    · cases h
    · cases h
    · rename_i hin
      obtain ⟨itemType, hmem, htype⟩ := inSet_eq_true.1 hin
      refine ⟨itemType, hmem, htype, ?_⟩
      have hstr : (Json.str? (Json.get? item "@type")).getD "" = itemType := by rw [htype]; rfl
      dsimp only at h
      rw [hstr] at h
      split at h
      · cases h
      · rename_i hnone
        refine ⟨fun field hfield hrequired hblank => ?_, h⟩
        have hno := List.find?_eq_none.1 hnone field hfield
        simp [hrequired, hblank] at hno
  · rintro ⟨itemType, hmem, htype, hrequired, hprops⟩
    unfold validateItem
    have hin : Json.inSet (coreFields.map Prod.fst) (Json.get? item "@type") = .ok true :=
      inSet_eq_true.2 ⟨itemType, hmem, htype⟩
    have hstr : (Json.str? (Json.get? item "@type")).getD "" = itemType := by rw [htype]; rfl
    have hnone : (fieldsOf itemType).find? (fun field => decide (field.required = true ∧
        strip (shown repr item field.name) = "")) = none := by
      refine List.find?_eq_none.2 fun field hfield hbad => ?_
      obtain ⟨hreq, hblank⟩ := of_decide_eq_true hbad
      exact hrequired field hfield hreq hblank
    rw [hin]
    dsimp only
    rw [hstr, hnone]
    exact hprops

end

namespace Python
variable {py : Python} {item item' : List (String × Json)} {doc v : Json} {itemType : String}

theorem pyStr_saved (v : Json) : pyStr py.repr (saved py.float v) = pyStr py.repr v := by
  cases v with
  | str s => rw [saved_str]
  | obj members =>
    obtain ⟨members', hsaved, -⟩ := saved_obj (f := py.float) members
    have hrepr := py.repr_saved (.obj members)
    rw [hsaved] at hrepr ⊢
    exact hrepr
  | arr vs =>
    have hrepr := py.repr_saved (.arr vs)
    rw [saved_arr] at hrepr ⊢
    exact hrepr
  | null | bool | num => exact py.repr_saved _

section
variable (hget : ∀ name, Json.get? item' name = (Json.get? item name).map (saved py.float))
include hget

theorem shown_saved (name : String) : shown py.repr item' name = shown py.repr item name := by
  rw [shown, shown, hget]
  cases Json.get? item name with
  | none => rfl
  | some v => exact pyStr_saved v

theorem str?_saved (name : String) : Json.str? (Json.get? item' name) = Json.str? (Json.get? item name) := by
  rw [hget]
  cases Json.get? item name with
  | none => rfl
  | some v =>
    cases v with
    | str s => rw [Option.map_some, saved_str]
    | obj members =>
      obtain ⟨members', hsaved, -⟩ := saved_obj (f := py.float) members
      rw [Option.map_some, hsaved]
      rfl
    | arr vs => rw [Option.map_some, saved_arr]; rfl
    | null | bool | num => rfl

end

theorem validateProperty_saved (p : Json) :
    validateProperty py.repr (saved py.float p) = validateProperty py.repr p := by
  cases p with
  | obj prop =>
    obtain ⟨prop', hsaved, hget⟩ := saved_obj (f := py.float) prop
    rw [hsaved, validateProperty, validateProperty, str?_saved hget, shown_saved hget]
  | str s => rw [saved_str]
  | arr vs => rw [saved_arr]; rfl
  | null | bool | num => rfl

theorem extraOf_saved {props : List Json}
    (hget : ∀ name, Json.get? item' name = (Json.get? item name).map (saved py.float))
    (hprops : extraOf item = .ok props) (hvalid : ∀ p ∈ props, validateProperty py.repr p = .ok ()) :
    ∃ props', extraOf item' = .ok props' ∧ ∀ p ∈ props', validateProperty py.repr p = .ok () := by
  rw [extraOf] at hprops
  rw [extraOf, hget]
  cases hv : Json.get? item "additionalProperty" with
  | none => exact ⟨[], rfl, fun _ hp => absurd hp List.not_mem_nil⟩
  | some v =>
    rw [hv, Option.getD_some] at hprops
    rw [Option.map_some, Option.getD_some]
    cases v with
    | arr elems =>
      obtain rfl := Except.ok.inj hprops
      refine ⟨elems.map (saved py.float), by rw [saved_arr]; rfl, fun p hp => ?_⟩
      obtain ⟨p', hp', rfl⟩ := List.mem_map.1 hp
      rw [validateProperty_saved]
      exact hvalid p' hp'
    | str s =>
      rw [saved_str]
      exact ⟨props, hprops, hvalid⟩
    | obj members =>
      -- a `dict` yields its names, which are no properties
      cases members with
      | nil => exact ⟨[], rfl, fun _ hp => absurd hp List.not_mem_nil⟩
      | cons m members =>
        obtain rfl := Except.ok.inj hprops
        have hname : m.1 ∈ Json.keys (m :: members) := by simp [Json.keys]
        exact absurd (hvalid _ (List.mem_map_of_mem hname)) (by rintro ⟨⟩)
    | null | bool | num => cases hprops

theorem validateItem_saved (hget : ∀ name, Json.get? item' name = (Json.get? item name).map (saved py.float))
    (h : validateItem py.repr item = .ok ()) : validateItem py.repr item' = .ok () := by
  obtain ⟨itemType, hmem, htype, hrequired, props, hprops, hvalid⟩ := validateItem_eq_ok.1 h
  refine validateItem_eq_ok.2 ⟨itemType, hmem, ?_, fun field hfield hreq => ?_, extraOf_saved hget hprops hvalid⟩
  · rw [hget, htype, Option.map_some, saved_str]
  · rw [shown_saved hget]
    exact hrequired field hfield hreq

theorem goodItem_saved (h : GoodItem py.repr itemType v) : GoodItem py.repr itemType (saved py.float v) := by
  obtain ⟨item, rfl, hvalid, htype⟩ := h
  obtain ⟨item', hsaved, hget⟩ := saved_obj (f := py.float) item
  exact ⟨item', hsaved, validateItem_saved hget hvalid, by rw [hget, htype, Option.map_some, saved_str]⟩

theorem entries_saved (h : IsCatalog doc) :
    IsCatalog (saved py.float doc) ∧ entries (saved py.float doc) = (entries doc).map (saved py.float) := by
  cases h with
  | @empty members hnone =>
    obtain ⟨members', hsaved, hget⟩ := saved_obj (f := py.float) members
    have hnone' : Json.get? members' "itemListElement" = none := by rw [hget, hnone]; rfl
    rw [hsaved]
    exact ⟨.empty hnone', by simp [entries, hnone, hnone']⟩
  | @items members elems hsome =>
    obtain ⟨members', hsaved, hget⟩ := saved_obj (f := py.float) members
    have hsome' : Json.get? members' "itemListElement" = some (.arr (elems.map (saved py.float))) := by
      rw [hget, hsome, Option.map_some, saved_arr]
    rw [hsaved]
    exact ⟨.items hsome', by simp [entries, hsome, hsome']⟩

end Python

end Catalog

end Embassy
