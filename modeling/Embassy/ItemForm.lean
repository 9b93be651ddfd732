import Embassy.SchemaTypes

/-!
# What the edit form keeps

Saving rebuilds the core fields and the additional properties from the texts of the form (`Saved`), so an item
is kept exactly if the form shows all of them (`ItemShown`).
-/

namespace Embassy
open Lib

namespace Catalog

section
variable {v : Json} {members members' : List (String × Json)} {s : String} {elems : List Json}

theorem alike_obj_iff : Alike (.obj members) (.obj members') ↔
    ∀ name, Option.Rel Alike (Json.get? members name) (Json.get? members' name) := by
  constructor
  · intro h name
    cases h with
    | refl =>
      rcases Json.get? members name with _ | v
      · exact .none
      · exact .some (.refl v)
    | obj h => exact h name
  · exact .obj

theorem alike_str_iff : Alike v (.str s) ↔ ∃ s', v = .str s' ∧ strip s' = strip s := by
  constructor
  · intro h
    cases h with
    | refl => exact ⟨s, rfl, rfl⟩
    | str h => exact ⟨_, rfl, h⟩
  · rintro ⟨s', rfl, h⟩
    exact .str h

theorem forall₂_alike_refl (elems : List Json) : List.Forall₂ Alike elems elems := by
  induction elems with
  | nil => exact .nil
  | cons v elems ih => exact .cons (.refl v) ih

theorem alike_arr_iff : Alike v (.arr elems) ↔ ∃ elems', v = .arr elems' ∧ List.Forall₂ Alike elems' elems := by
  constructor
  · intro h
    cases h with
    | refl => exact ⟨elems, rfl, forall₂_alike_refl elems⟩
    | arr h => exact ⟨_, rfl, h⟩
  · rintro ⟨elems', rfl, h⟩
    exact .arr h

theorem rel_none_iff {o : Option Json} : Option.Rel Alike o none ↔ o = none := by
  constructor
  · intro h
    cases h
    rfl
  · rintro rfl
    exact .none

theorem rel_some_iff {o : Option Json} : Option.Rel Alike o (some v) ↔ ∃ x, o = some x ∧ Alike x v := by
  constructor
  · intro h
    cases h with
    | some h => exact ⟨_, rfl, h⟩
  · rintro ⟨x, rfl, h⟩
    exact .some h

/-- A list is related to what a filter leaves of it only if the filter takes nothing away. -/
theorem forall₂_filterMap_iff {α β : Type*} {R : α → β → Prop} {f : α → Option β} {l : List α} :
    List.Forall₂ R l (l.filterMap f) ↔ ∀ x ∈ l, ∃ y, f x = some y ∧ R x y := by
  induction l with
  | nil => simp
  | cons x l ih =>
    rcases hx : f x with _ | y
    · rw [List.filterMap_cons_none hx]
      constructor
      · intro h
        have hlength := h.length_eq
        have hle := List.length_filterMap_le f l
        simp only [List.length_cons] at hlength
        omega
      · intro h
        obtain ⟨y, hy, -⟩ := h x (List.mem_cons_self ..)
        rw [hx] at hy
        cases hy
    · rw [List.filterMap_cons_some hx, List.forall₂_cons, ih, List.forall_mem_cons]
      simp only [hx, Option.some.injEq, exists_eq_left']

end

/-! ### The submitted form -/

namespace Form

theorem get?_eq {form : Form} {name : String} {v : FormValue} (hmem : (name, v) ∈ form)
    (hname : ∀ m ∈ form, m.1 = name → m.2 = v) : form.get? name = some v := by
  unfold get?
  rcases hfind : form.reverse.find? fun m => decide (m.1 = name) with _ | m
  · have hnone := List.find?_eq_none.mp hfind (name, v) (List.mem_reverse.mpr hmem)
    exact absurd (decide_eq_true rfl) hnone
  · have hm : m.1 = name := by simpa using List.find?_some hfind
    rw [hfind, Option.map_some, hname m (List.mem_reverse.mp (List.mem_of_find?_eq_some hfind)) hm]

end Form

/-- What the lists of core fields are like. -/
structure FieldNames (fields : List Field) : Prop where
  nodup : (fields.map Field.name).Nodup
  own : ∀ field ∈ fields, field.name ≠ "@type" ∧ field.name ≠ "additionalProperty" ∧
    "field__" ++ field.name ≠ "extra_name" ∧ "field__" ++ field.name ≠ "extra_value"

theorem fieldNames (itemType : String) : FieldNames (fieldsOf itemType) := by
  have hall : ∀ fields ∈ [] :: coreFields.map Prod.snd, (fields.map Field.name).Nodup ∧
      ∀ field ∈ fields, field.name ≠ "@type" ∧ field.name ≠ "additionalProperty" ∧
        "field__" ++ field.name ≠ "extra_name" ∧ "field__" ++ field.name ≠ "extra_value" := by decide
  have hmem : fieldsOf itemType ∈ [] :: coreFields.map Prod.snd := by
    unfold fieldsOf
    rcases hlookup : coreFields.lookup itemType with _ | fields
    · exact List.mem_cons_self ..
    · obtain ⟨before, after, hsplit, -⟩ := List.lookup_eq_some_iff.mp hlookup
      have hpair : (itemType, fields) ∈ coreFields := hsplit ▸ by simp
      exact List.mem_cons_of_mem _ (List.mem_map_of_mem (f := Prod.snd) hpair)
  obtain ⟨hnodup, hown⟩ := hall _ hmem
  exact ⟨hnodup, hown⟩

section
variable {browser : Browser} {repr : Json → String} {itemType : String} {item item' : List (String × Json)}
  {props : List Json} {form : Form}

def rowOf (browser : Browser) (repr : Json → String) (prop : Json) : String × String :=
  (browser.submitted .text (propertyShown repr "name" prop), browser.submitted .text (propertyShown repr "value" prop))

def propertyOf (row : String × String) : Option Json :=
  if strip row.1 = "" then none
  else some (.obj [("@type", .str "PropertyValue"), ("name", .str (strip row.1)), ("value", .str (strip row.2))])

theorem propertyOf_blank {row : String × String} (h : strip row.1 = "") : propertyOf row = none := if_pos h

theorem propertyOf_named {row : String × String} (h : strip row.1 ≠ "") : propertyOf row =
    some (.obj [("@type", .str "PropertyValue"), ("name", .str (strip row.1)), ("value", .str (strip row.2))]) :=
  if_neg h

theorem prefilled_eq (hprops : extraOf item = .ok props) :
    prefilled browser repr itemType item = .ok ((fieldsOf itemType).map (fieldInput browser repr item) ++
      props.flatMap (fun prop => extraRow browser (propertyShown repr "name" prop) (propertyShown repr "value" prop)) ++
      extraRow browser "" "") := by
  rw [prefilled, hprops]
  rfl

theorem textOf_prefilled (hform : prefilled browser repr itemType item = .ok form) (hprops : extraOf item = .ok props)
    {field : Field} (hfield : field ∈ fieldsOf itemType) : textOf form ("field__" ++ field.name) =
      .ok (strip (browser.submitted field.inputType (shown repr item field.name))) := by
  rw [prefilled_eq hprops] at hform
  obtain rfl := Except.ok.inj hform
  have hown := (fieldNames itemType).own field hfield
  rw [textOf, Form.stripped, Form.get?_eq (v := (fieldInput browser repr item field).2)]
  · rfl
  · refine List.mem_append_left _ (List.mem_append_left _ ?_)
    exact List.mem_map.mpr ⟨field, hfield, rfl⟩
  · have hrow (name value : String) : ∀ m ∈ extraRow browser name value, m.1 ≠ "field__" ++ field.name := by
      intro m hm
      simp only [extraRow, List.mem_cons, List.not_mem_nil, or_false] at hm
      rcases hm with rfl | rfl
      · exact hown.2.2.1.symm
      · exact hown.2.2.2.symm
    intro m hm hname
    rcases List.mem_append.mp hm with hm | hm
    · rcases List.mem_append.mp hm with hm | hm
      · obtain ⟨field', hfield', rfl⟩ := List.mem_map.mp hm
        have hsame : field'.name = field.name := by
          have h := congrArg String.toList hname
          rw [fieldInput, String.toList_append, String.toList_append] at h
          exact String.toList_injective (List.append_cancel_left h)
        rw [List.inj_on_of_nodup_map (fieldNames itemType).nodup hfield' hfield hsame]
      · obtain ⟨prop, -, hm⟩ := List.mem_flatMap.mp hm
        exact absurd hname (hrow _ _ m hm)
    · exact absurd hname (hrow _ _ m hm)

theorem getlist_append (form form' : Form) (name : String) :
    Form.getlist (form ++ form') name = form.getlist name ++ form'.getlist name := by
  rw [Form.getlist, List.filter_append, List.map_append]
  rfl

theorem getlist_prefilled (text : String × String → String) (hform : prefilled browser repr itemType item = .ok form) (hprops : extraOf item = .ok props)
    {name : String} (hname : ∀ field ∈ fieldsOf itemType, "field__" ++ field.name ≠ name)
    (hrow : ∀ name' value, Form.getlist (extraRow browser name' value) name =
      [.text (text (browser.submitted .text name', browser.submitted .text value))]) :
    form.getlist name = (props.map (rowOf browser repr) ++ [("", "")]).map fun row => .text (text row) := by
  rw [prefilled_eq hprops] at hform
  obtain rfl := Except.ok.inj hform
  have hfields : Form.getlist ((fieldsOf itemType).map (fieldInput browser repr item)) name = [] := by
    rw [Form.getlist, List.map_eq_nil_iff, List.filter_eq_nil_iff]
    intro m hm
    obtain ⟨field, hfield, rfl⟩ := List.mem_map.mp hm
    exact fun h => hname field hfield (of_decide_eq_true h)
  have hprop : Form.getlist (props.flatMap fun prop =>
      extraRow browser (propertyShown repr "name" prop) (propertyShown repr "value" prop)) name =
      props.map fun prop => .text (text (rowOf browser repr prop)) := by
    clear hform hprops
    induction props with
    | nil => rfl
    | cons prop props ih =>
      rw [List.flatMap_cons, getlist_append, hrow, ih]
      rfl
  rw [getlist_append, getlist_append, hfields, hprop, hrow, browser.empty, List.map_append, List.map_map]
  rfl

theorem extraRows_prefilled (hform : prefilled browser repr itemType item = .ok form) (hprops : extraOf item = .ok props) :
    form.extraRows =
      (props.map (rowOf browser repr) ++ [("", "")]).map fun row => (.text row.1, .text row.2) := by
  have hown := (fieldNames itemType).own
  rw [Form.extraRows, getlist_prefilled Prod.fst hform hprops (fun field hfield => (hown field hfield).2.2.1)
    fun _ _ => rfl, getlist_prefilled Prod.snd hform hprops (fun field hfield => (hown field hfield).2.2.2)
    fun _ _ => rfl, List.zip_map']

theorem additional_text (rows : List (String × String)) :
    additional (rows.map fun row => (.text row.1, .text row.2)) = .ok (rows.filterMap propertyOf) := by
  induction rows with
  | nil => rfl
  | cons row rows ih =>
    have hstrip (s : String) : (FormValue.text s).strip.mapError (fun _ => ItemExc.other) = .ok (strip s) := rfl
    rw [List.map_cons, additional]
    simp only [hstrip, bind, Except.bind]
    split_ifs with hblank
    · rw [List.filterMap_cons_none (propertyOf_blank hblank)]
      exact ih
    · rw [List.filterMap_cons_some (propertyOf_named hblank), ih]
      rfl

/-- The loop over the core fields sets or removes them, and leaves the other names alone. -/
theorem setCore_spec {fields : List Field} (item : List (String × Json)) {text : Field → String} (hnodup : (fields.map Field.name).Nodup)
    (htext : ∀ field ∈ fields, textOf form ("field__" ++ field.name) = .ok (text field)) :
    ∃ item', setCore form fields item = .ok item' ∧
      (∀ name ∉ fields.map Field.name, Json.get? item' name = Json.get? item name) ∧
      ∀ field ∈ fields, Json.get? item' field.name = if text field = "" then none else some (.str (text field)) := by
  induction fields generalizing item with
  | nil => exact ⟨item, rfl, fun _ _ => rfl, fun _ h => absurd h List.not_mem_nil⟩
  | cons field fields ih =>
    rw [List.map_cons, List.nodup_cons] at hnodup
    obtain ⟨hnot, hnodup⟩ := hnodup
    obtain ⟨hfield, hrest⟩ := List.forall_mem_cons.mp htext
    have hstep (name : String) : Json.get? (if text field = "" then Json.erase item field.name
        else Json.set item field.name (.str (text field))) name =
        if name = field.name then if text field = "" then none else some (.str (text field))
        else Json.get? item name := by
      by_cases htext : text field = ""
      · rw [if_pos htext, if_pos htext, Json.get?_erase]
      · rw [if_neg htext, if_neg htext, Json.get?_set]
    obtain ⟨item', hset, hframe, hfields⟩ := ih
      (if text field = "" then Json.erase item field.name else Json.set item field.name (.str (text field))) hnodup hrest
    refine ⟨item', ?_, fun name hname => ?_, fun field' hfield' => ?_⟩
    · rw [setCore, hfield]
      exact hset
    · rw [List.map_cons, List.mem_cons, not_or] at hname
      rw [hframe name hname.2, hstep, if_neg hname.1]
    · rcases List.mem_cons.mp hfield' with rfl | hfield'
      · rw [hframe _ hnot, hstep, if_pos rfl]
      · exact hfields field' hfield'

structure Saved (browser : Browser) (repr : Json → String) (itemType : String) (item : List (String × Json))
    (props : List Json) (item' : List (String × Json)) : Prop where
  type : Json.get? item' "@type" = some (.str itemType)
  core : ∀ field ∈ fieldsOf itemType, ∀ text,
    strip (browser.submitted field.inputType (shown repr item field.name)) = text →
      Json.get? item' field.name = if text = "" then none else some (.str text)
  extra : ∀ kept, props.filterMap (fun prop => propertyOf (rowOf browser repr prop)) = kept →
    Json.get? item' "additionalProperty" = if kept = [] then none else some (.arr kept)
  frame : ∀ name, name ≠ "@type" → name ≠ "additionalProperty" → name ∉ (fieldsOf itemType).map Field.name →
    Json.get? item' name = Json.get? item name

theorem itemFromForm_prefilled (hform : prefilled browser repr itemType item = .ok form)
    (hprops : extraOf item = .ok props) (htype : (coreFields.lookup itemType).isSome) :
    ∃ item', itemFromForm form itemType item = .ok item' ∧ Saved browser repr itemType item props item' := by
  obtain ⟨fields, hfields⟩ := Option.isSome_iff_exists.mp htype
  have hof : fieldsOf itemType = fields := by rw [fieldsOf, hfields, Option.getD_some]
  obtain ⟨hnodup, hown⟩ := fieldNames itemType
  obtain ⟨set, hset, hframe, hcore⟩ := setCore_spec (Json.set item "@type" (.str itemType)) hnodup
    fun field hfield => textOf_prefilled hform hprops hfield
  have hnot {name : String} (h : name = "@type" ∨ name = "additionalProperty") :
      name ∉ (fieldsOf itemType).map Field.name := by
    intro hmem
    obtain ⟨field, hfield, rfl⟩ := List.mem_map.mp hmem
    exact h.elim (hown field hfield).1 (hown field hfield).2.1
  have hkept : additional form.extraRows =
      .ok (props.filterMap fun prop => propertyOf (rowOf browser repr prop)) := by
    have hblank : propertyOf ("", "") = none := propertyOf_blank (by decide)
    rw [extraRows_prefilled hform hprops, additional_text, List.filterMap_append, List.filterMap_map,
      List.filterMap_cons_none hblank, List.filterMap_nil, List.append_nil]
    rfl
  -- a property is set or removed in the same way as a core field
  have hlast : ∃ item', itemFromForm form itemType item = .ok item' ∧ ∀ name, Json.get? item' name =
      if name = "additionalProperty" then
        (fun kept : List Json => if kept = [] then none else some (.arr kept))
          (props.filterMap fun prop => propertyOf (rowOf browser repr prop))
      else Json.get? set name := by
    rw [itemFromForm, hfields]
    simp only [← hof, hset, bind, Except.bind, hkept]
    rcases props.filterMap fun prop => propertyOf (rowOf browser repr prop) with _ | ⟨prop, kept⟩
    · exact ⟨_, rfl, fun name => Json.get?_erase ..⟩
    · exact ⟨_, rfl, fun name => Json.get?_set ..⟩
  obtain ⟨item', hitem', hget⟩ := hlast
  refine ⟨item', hitem', ?_, fun field hfield text htext => ?_, fun kept hk => ?_, fun name h1 h2 h3 => ?_⟩
  · rw [hget, if_neg (by decide), hframe _ (hnot (.inl rfl)), Json.get?_set, if_pos rfl]
  · rw [hget, if_neg (hown field hfield).2.1, hcore field hfield, htext]
  · rw [hget, if_pos rfl, hk]
  · rw [hget, if_neg h2, hframe name h3, Json.get?_set, if_neg h1]

/-! ### What the form shows -/

theorem shown_str {name s : String} (h : Json.get? item name = some (.str s)) : shown repr item name = s := by
  rw [shown, h]
  rfl

theorem shown_none {name : String} (h : Json.get? item name = none) : shown repr item name = "" := by
  rw [shown, h]
  rfl

theorem rel_core_iff {field : Field} {text : String}
    (htext : strip (browser.submitted field.inputType (shown repr item field.name)) = text) :
    Option.Rel Alike (Json.get? item field.name) (if text = "" then none else some (.str text)) ↔
      ∀ v, Json.get? item field.name = some v →
        ∃ s, v = .str s ∧ strip s ≠ "" ∧ Sent browser field.inputType s := by
  rcases hget : Json.get? item field.name with _ | v
  · have hblank : text = "" := by
      rw [← htext, shown_none hget, browser.empty]
      rfl
    rw [if_pos hblank]
    exact ⟨fun _ v hv => (by cases hv), fun _ => .none⟩
  · constructor
    · intro h w hw
      obtain rfl := Option.some.inj hw
      split_ifs at h with hblank
      · cases h
      · obtain ⟨s, rfl, hs⟩ := alike_str_iff.mp (Option.rel_some_some.mp h)
        rw [shown_str hget] at htext
        have hstrip : strip text = text := by rw [← htext, strip_strip]
        rw [hstrip] at hs
        exact ⟨s, rfl, fun h => hblank (hs ▸ h), htext.trans hs.symm⟩
    · intro h
      obtain ⟨s, rfl, hs, hsent⟩ := h v rfl
      have htext : text = strip s := by
        rw [← htext, shown_str hget]
        exact hsent
      rw [if_neg fun h => hs (htext.symm.trans h), htext]
      exact .some (.str (strip_strip s).symm)

theorem get?_propertyOf (name value n : String) :
    Json.get? [("@type", .str "PropertyValue"), ("name", .str name), ("value", .str value)] n =
      if n = "@type" then some (.str "PropertyValue") else if n = "name" then some (.str name)
      else if n = "value" then some (.str value) else none := by
  by_cases h1 : n = "@type"
  · subst h1
    rfl
  · by_cases h2 : n = "name"
    · subst h2
      rfl
    · by_cases h3 : n = "value"
      · subst h3
        rfl
      · simp [h1, h2, h3, Ne.symm h1, Ne.symm h2, Ne.symm h3]

/-- A property that `validate_item` accepts is kept exactly if it is shown. -/
theorem property_iff {p : Json} (hvalid : validateProperty repr p = .ok ()) :
    (∃ p', propertyOf (rowOf browser repr p) = some p' ∧ Alike p p') ↔
      ∃ prop, p = .obj prop ∧ PropertyShown browser prop := by
  cases p with
  | obj prop =>
    have hvalid : ¬ (Json.str? (Json.get? prop "@type") ≠ some "PropertyValue" ∨ strip (shown repr prop "name") = "") := by
      intro h
      rw [validateProperty, if_pos h] at hvalid
      cases hvalid
    rw [not_or, not_not] at hvalid
    obtain ⟨htype, hname⟩ := hvalid
    have htype : Json.get? prop "@type" = some (.str "PropertyValue") := by
      rcases hget : Json.get? prop "@type" with _ | v
      · rw [hget] at htype
        cases htype
      · rw [hget] at htype
        cases v
        case str s => rw [Option.some.inj htype]
        all_goals cases htype
    constructor
    · rintro ⟨p', hp', halike⟩
      have hnamed : strip (rowOf browser repr (.obj prop)).1 ≠ "" := by
        intro h
        rw [propertyOf_blank h] at hp'
        cases hp'
      rw [propertyOf_named hnamed] at hp'
      obtain rfl := Option.some.inj hp'
      have hrel := alike_obj_iff.mp halike
      simp only [get?_propertyOf] at hrel
      -- a text of the property, and what the browser sends for it
      have htext {n : String} {sent : String} (h : Option.Rel Alike (Json.get? prop n) (some (.str (strip sent))))
          (hsent : sent = browser.submitted .text (shown repr prop n)) :
          ∃ s, Json.get? prop n = some (.str s) ∧ Sent browser .text s := by
        obtain ⟨v, hv, halike⟩ := rel_some_iff.mp h
        obtain ⟨s, rfl, hs⟩ := alike_str_iff.mp halike
        rw [hsent, shown_str hv, strip_strip] at hs
        exact ⟨s, hv, hs.symm⟩
      refine ⟨prop, rfl, htext (hrel "name") rfl, htext (hrel "value") rfl, fun n hn => ?_⟩
      by_contra hnot
      simp only [List.mem_cons, List.not_mem_nil, or_false, not_or] at hnot
      have hnone := hrel n
      rw [if_neg hnot.1, if_neg hnot.2.1, if_neg hnot.2.2, rel_none_iff] at hnone
      rw [hnone] at hn
      cases hn
    · rintro ⟨_, heq, ⟨⟨name, hgetName, hsentName⟩, ⟨value, hgetValue, hsentValue⟩, honly⟩⟩
      cases heq
      have hrow : rowOf browser repr (.obj prop) = (browser.submitted .text name, browser.submitted .text value) := by
        rw [rowOf, propertyShown, propertyShown, shown_str hgetName, shown_str hgetValue]
      rw [shown_str hgetName] at hname
      have hnamed : strip (rowOf browser repr (.obj prop)).1 ≠ "" := by
        rw [hrow, hsentName]
        exact hname
      refine ⟨_, propertyOf_named hnamed, alike_obj_iff.mpr fun n => ?_⟩
      rw [hrow, get?_propertyOf, hsentName, hsentValue]
      split_ifs with h1 h2 h3
      · rw [h1, htype]
        exact .some (.refl _)
      · rw [h2, hgetName]
        exact .some (.str (strip_strip name).symm)
      · rw [h3, hgetValue]
        exact .some (.str (strip_strip value).symm)
      · rw [rel_none_iff, ← Option.not_isSome_iff_eq_none]
        intro hn
        have hmem := honly n hn
        simp only [List.mem_cons, List.not_mem_nil, or_false] at hmem
        rcases hmem with h | h | h
        · exact h1 h
        · exact h2 h
        · exact h3 h
  | _ => cases hvalid

theorem rel_extra_iff {kept : List Json} (hprops : extraOf item = .ok props)
    (hvalid : ∀ p ∈ props, validateProperty repr p = .ok ())
    (hkept : props.filterMap (fun prop => propertyOf (rowOf browser repr prop)) = kept) :
    Option.Rel Alike (Json.get? item "additionalProperty") (if kept = [] then none else some (.arr kept)) ↔
      ∀ v, Json.get? item "additionalProperty" = some v → ∃ props, v = .arr props ∧ props ≠ [] ∧
        ∀ p ∈ props, ∃ prop, p = .obj prop ∧ PropertyShown browser prop := by
  unfold extraOf at hprops
  rcases hget : Json.get? item "additionalProperty" with _ | v
  · rw [hget] at hprops
    obtain rfl := Except.ok.inj hprops
    have hnil : kept = [] := hkept.symm
    rw [if_pos hnil]
    exact ⟨fun _ v hv => (by cases hv), fun _ => .none⟩
  · rw [hget, Option.getD_some] at hprops
    constructor
    · intro h w hw
      obtain rfl := Option.some.inj hw
      split_ifs at h with hnil
      · cases h
      · obtain ⟨elems, rfl, hrel⟩ := alike_arr_iff.mp (Option.rel_some_some.mp h)
        obtain rfl := Except.ok.inj hprops
        refine ⟨elems, rfl, fun hno => hnil ?_, fun p hp => ?_⟩
        · rw [← hkept, hno]
          rfl
        · rw [← hkept] at hrel
          exact (property_iff (hvalid p hp)).mp (forall₂_filterMap_iff.mp hrel p hp)
    · intro h
      obtain ⟨elems, rfl, hne, hshown⟩ := h v rfl
      obtain rfl := Except.ok.inj hprops
      have hrel : List.Forall₂ Alike elems kept := by
        rw [← hkept]
        exact forall₂_filterMap_iff.mpr fun p hp => (property_iff (hvalid p hp)).mpr (hshown p hp)
      have hkne : kept ≠ [] := by
        rintro rfl
        exact hne (List.forall₂_nil_right_iff.mp hrel)
      rw [if_neg hkne]
      exact .some (.arr hrel)

theorem strip_itemType (h : (coreFields.lookup itemType).isSome) : strip itemType = itemType := by
  have hall : ∀ t ∈ coreFields.map Prod.fst, strip t = t := by decide +kernel
  obtain ⟨entry, hentry, heq⟩ := List.lookup_isSome_iff.mp h
  exact hall itemType (List.mem_map.mpr ⟨entry, hentry, (eq_of_beq heq).symm⟩)

theorem validItem_facts (h : validateItem repr item = .ok ()) :
    (∃ itemType, Json.get? item "@type" = some (.str itemType) ∧ (coreFields.lookup itemType).isSome) ∧
      ∃ props, extraOf item = .ok props ∧ ∀ p ∈ props, validateProperty repr p = .ok () := by
  unfold validateItem at h
  split at h
  · cases h
  · cases h
  · rename_i htype
    dsimp only at h
    split at h
    · cases h
    rename_i hrequired
    obtain ⟨props, hprops, hall⟩ := Json.bind_eq_ok h
    refine ⟨?_, props, hprops, ?_⟩
    · rcases hget : Json.get? item "@type" with _ | v
      · rw [hget] at htype
        cases htype
      · rw [hget] at htype
        cases v
        case str s =>
          have hmem : s ∈ coreFields.map Prod.fst := of_decide_eq_true (Except.ok.inj htype)
          obtain ⟨entry, hentry, rfl⟩ := List.mem_map.mp hmem
          exact ⟨_, rfl, List.lookup_isSome_iff.mpr ⟨entry, hentry, beq_self_eq_true _⟩⟩
        all_goals cases htype
    · clear hprops htype hrequired
      induction props with
      | nil => exact fun p hp => absurd hp List.not_mem_nil
      | cons p props ih =>
        change (validateProperty repr p >>= fun _ => props.forM (validateProperty repr)) = _ at hall
        obtain ⟨⟨⟩, hp, hrest⟩ := Json.bind_eq_ok hall
        exact List.forall_mem_cons.mpr ⟨hp, ih hrest⟩

theorem alike_saved_iff {own : String} (hown : Json.get? item "@type" = some (.str own))
    (hown' : (coreFields.lookup own).isSome) (hknown : (coreFields.lookup itemType).isSome)
    (hprops : extraOf item = .ok props) (hvalid : ∀ p ∈ props, validateProperty repr p = .ok ())
    (hsaved : Saved browser repr itemType item props item') :
    Alike (.obj item) (.obj item') ↔ ItemShown browser itemType item := by
  rw [alike_obj_iff]
  constructor
  · intro h
    refine ⟨?_, fun field hfield => ?_, ?_⟩
    · have htype := h "@type"
      rw [hown, hsaved.type] at htype
      obtain ⟨s, hs, hstrip⟩ := alike_str_iff.mp (Option.rel_some_some.mp htype)
      rw [← Json.str.inj hs, strip_itemType hown', strip_itemType hknown] at hstrip
      rw [hown, hstrip]
    · have hcore := h field.name
      rw [hsaved.core field hfield _ rfl] at hcore
      exact (rel_core_iff rfl).mp hcore
    · have hextra := h "additionalProperty"
      rw [hsaved.extra _ rfl] at hextra
      exact (rel_extra_iff hprops hvalid rfl).mp hextra
  · rintro ⟨htype, hcore, hextra⟩ name
    by_cases h1 : name = "@type"
    · rw [h1, htype, hsaved.type]
      exact .some (.refl _)
    · by_cases h2 : name = "additionalProperty"
      · rw [h2, hsaved.extra _ rfl]
        exact (rel_extra_iff hprops hvalid rfl).mpr hextra
      · by_cases h3 : name ∈ (fieldsOf itemType).map Field.name
        · obtain ⟨field, hfield, rfl⟩ := List.mem_map.mp h3
          rw [hsaved.core field hfield _ rfl]
          exact (rel_core_iff rfl).mpr (hcore field hfield)
        · rw [hsaved.frame name h1 h2 h3]
          rcases Json.get? item name with _ | v
          · exact .none
          · exact .some (.refl v)

theorem itemShown_of_kept (hvalid : validateItem repr item = .ok ()) (h : ItemKept browser repr itemType item) :
    ItemShown browser itemType item := by
  obtain ⟨⟨own, hown, hown'⟩, props, hprops, hall⟩ := validItem_facts hvalid
  obtain ⟨form, item', hform, hitem', halike⟩ := h
  have hknown : (coreFields.lookup itemType).isSome := by
    rcases hlookup : coreFields.lookup itemType with _ | fields
    · rw [itemFromForm, hlookup] at hitem'
      cases hitem'
    · rfl
  obtain ⟨saved, hsaved', hsaved⟩ := itemFromForm_prefilled hform hprops hknown
  rw [hitem'] at hsaved'
  obtain rfl := Except.ok.inj hsaved'
  exact (alike_saved_iff hown hown' hknown hprops hall hsaved).mp halike

theorem itemKept_of_shown (hvalid : validateItem repr item = .ok ()) (h : ItemShown browser itemType item) :
    ItemKept browser repr itemType item := by
  obtain ⟨⟨own, hown, hown'⟩, props, hprops, hall⟩ := validItem_facts hvalid
  have htype : own = itemType := by
    have heq := h.type
    rw [hown] at heq
    exact Json.str.inj (Option.some.inj heq)
  have hknown := hown'
  rw [htype] at hknown
  obtain ⟨item', hitem', hsaved⟩ := itemFromForm_prefilled (prefilled_eq hprops) hprops hknown
  exact ⟨_, item', prefilled_eq hprops, hitem', (alike_saved_iff hown hown' hknown hprops hall hsaved).mpr h⟩

/-- Saving the form keeps the item exactly if the form shows all that is rebuilt from it. -/
theorem itemKept_iff (browser : Browser) (repr : Json → String) (itemType : String) (item : ValidItem repr) :
    ItemKept browser repr itemType item ↔ ItemShown browser itemType item :=
  ⟨itemShown_of_kept item.2, itemKept_of_shown item.2⟩

/-- A property with a unit. -/
def weighed : List (String × Json) :=
  [("@type", .str "Product"), ("name", .str "Widget"), ("additionalProperty", .arr [.obj
    [("@type", .str "PropertyValue"), ("name", .str "weight"), ("value", .str "3"), ("unitCode", .str "KGM")]])]

/-- The unit is lost. -/
theorem not_itemKept : ¬ ∀ (browser : Browser) (repr : Json → String) (item : ValidItem repr),
    ItemKept browser repr "Product" item := by
  intro h
  have hvalid : validateItem (fun _ => "None") weighed = .ok () := by rfl
  have hshown := itemShown_of_kept hvalid (h .exact (fun _ => "None") ⟨weighed, hvalid⟩)
  obtain ⟨props, hprops, -, hall⟩ := hshown.extra _ rfl
  obtain rfl := Json.arr.inj hprops
  obtain ⟨prop, hprop, honly⟩ := hall _ (List.mem_singleton_self _)
  obtain rfl := Json.obj.inj hprop
  exact absurd (honly.only "unitCode" rfl) (by decide)

end

end Catalog

end Embassy
