import Embassy.CatalogStore
import Embassy.Lib.Runs

/-!
# Concurrent catalog edits (`admin/main.py`)

`catalog_update` reads the item at an index, builds the new item from it, and later writes at that index;
`catalog_create` and `catalog_delete` are one step each. Every item written gets a tag (`Tag`), which no
code looks at: its entry stays when it is edited, its version does not. An update that writes after other
requests shifted the positions replaces another item than the one it read (`not_editsExact`). Where the
item at the index is still the same, every edit is exact (`editsExact_of_stillThere`).
-/

namespace Embassy
open Lib

namespace Catalog

/-! ### The routes -/

/-- Which item of the catalog, and which writing of it. -/
structure Tag where
  entry : ℕ
  version : ℕ
  deriving DecidableEq, Repr, Inhabited

/-- What `item_from_form` and `validate_item` can raise. -/
inductive FormExc
  /-- `InvalidItem` -/
  | invalid
  /-- Any other exception. -/
  | other
  deriving DecidableEq, Repr

/-- A request that is under way or answered. -/
inductive Handler
  /-- An update that has built its item, from the one with this tag. -/
  | editing (index : ℕ) (builtFrom : Tag) (item : Json)
  /-- An update that came to its write. -/
  | written (status : ℕ)
  | answered (status : ℕ)

/-- The index and the tag of an update that is about to write. -/
def Handler.editing? : Handler → Option (ℕ × Tag)
  | editing index builtFrom _ => some (index, builtFrom)
  | _ => none

def Handler.status? : Handler → Option ℕ
  | editing .. => none
  | written status | answered status => some status

/-- What a request did to the file. -/
inductive Change
  | created (i : ℕ) (tag : Tag)
  | edited (i : ℕ) (builtFrom replaced : Tag)
  | deleted (i : ℕ) (tag : Tag)
  deriving DecidableEq, Repr

def Change.request : Change → ℕ
  | created i _ | edited i _ _ | deleted i _ => i

/-- The file of one kind and the requests; `slots` are the items with their tags, `written` every item
there ever was. -/
structure World where
  doc : Json
  slots : List (Tag × Json)
  next : ℕ
  handlers : ℕ → Option Handler
  history : List Change
  written : List (Tag × Json)

namespace World

def goto (i : ℕ) (h : Handler) (w : World) : World :=
  { w with handlers := Function.update w.handlers i (some h) }

@[simp] theorem goto_handlers_self (i : ℕ) (h : Handler) (w : World) : (w.goto i h).handlers i = some h :=
  Function.update_self ..

theorem goto_handlers_of_ne {i j : ℕ} (h : Handler) (w : World) (hji : j ≠ i) :
    (w.goto i h).handlers j = w.handlers j :=
  Function.update_of_ne hji ..

/-- The file is written: `change` leaves the slots, with these items new among them. -/
def commit (doc : Json) (slots : List (Tag × Json)) (change : Change) (new : List (Tag × Json))
    (w : World) : World :=
  { w with doc, slots, next := w.next + 1, history := w.history ++ [change], written := w.written ++ new }

def tagAt (w : World) (index : ℕ) : Tag := (w.slots[index]?.map Prod.fst).getD default

end World

inductive Act
  /-- `catalog_create`, with the item that comes of the form. -/
  | create (i : ℕ) (form : Except FormExc Json)
  /-- `catalog_update` reads the item and builds the new one, ... -/
  | read (i index : ℕ) (form : Json → Except FormExc Json)
  /-- ... and writes it. -/
  | write (i : ℕ)
  /-- `catalog_delete` -/
  | delete (i index : ℕ)

def FormExc.status : FormExc → ℕ
  | invalid => 400
  | other => 500

/-- Only `IndexError` is caught. -/
def StoreExc.status : StoreExc → ℕ
  | indexError => 404
  | _ => 500

def editStep (w : World) : Act → Option World
  | .create i form =>
    match w.handlers i with
    | some _ => none
    | none =>
      match form with
      | .error e => some (w.goto i (.answered e.status))
      | .ok item =>
        match appendItem item w.doc with
        | .error _ => some (w.goto i (.answered 500))
        | .ok doc =>
          let tag : Tag := ⟨w.next, w.next⟩
          some ((w.commit doc (w.slots ++ [(tag, item)]) (.created i tag) [(tag, item)]).goto i
            (.answered 303))
  | .read i index form =>
    match w.handlers i with
    | some _ => none
    | none =>
      match getItem index w.doc with
      | .error e => some (w.goto i (.answered e.status))
      | .ok existing =>
        match form existing with
        | .error e => some (w.goto i (.answered e.status))
        | .ok item => some (w.goto i (.editing index (w.tagAt index) item))
  | .write i =>
    match w.handlers i with
    | some (.editing index builtFrom item) =>
      match setItem index item w.doc with
      | .error e => some (w.goto i (.written e.status))
      | .ok doc =>
        let replaced := w.tagAt index
        let tag : Tag := ⟨replaced.entry, w.next⟩
        some ((w.commit doc (w.slots.set index (tag, item)) (.edited i builtFrom replaced)
          [(tag, item)]).goto i (.written 303))
    | _ => none
  | .delete i index =>
    match w.handlers i with
    | some _ => none
    | none =>
      match popItem index w.doc with
      | .error e => some (w.goto i (.answered e.status))
      | .ok doc =>
        some ((w.commit doc (w.slots.eraseIdx index) (.deleted i (w.tagAt index)) []).goto i
          (.answered 303))

/-! ### What is promised -/

/-- The catalog as it was found, its items tagged by their positions. -/
def World.init (doc : {doc : Json // IsCatalog doc}) : World :=
  let slots := (entries doc.1).zipIdx.map fun e => (⟨e.2, e.2⟩, e.1)
  ⟨doc.1, slots, slots.length, fun _ => none, [], slots⟩

/-- Whether an item that was edited is still the same. -/
inductive Sameness
  | entry
  | version
  deriving DecidableEq, Repr

def Sameness.Rel : Sameness → Tag → Tag → Prop
  | entry, tag, tag' => tag.entry = tag'.entry
  | version, tag, tag' => tag = tag'

/-- The change takes the item with this tag out of the file, by a deletion or by an edit of it. -/
def Change.Explicit (same : Sameness) (tag : Tag) : Change → Prop
  | created .. => False
  | edited _ builtFrom replaced => replaced = tag ∧ same.Rel builtFrom tag
  | deleted _ tag' => tag' = tag

/-- What is promised of a state. -/
structure EditsExact (same : Sameness) (w : World) : Prop where
  /-- Every edit replaced the item it was built from. -/
  exact : ∀ i builtFrom replaced, .edited i builtFrom replaced ∈ w.history → same.Rel builtFrom replaced
  /-- An update that came to its write answered 303 or 404. -/
  status : ∀ i status, w.handlers i = some (.written status) → status = 303 ∨ status = 404
  /-- A request that answered 303 made one change to the file, every other none. -/
  changes : ∀ i, (w.history.filter fun c => c.request = i).length =
    if (w.handlers i).bind Handler.status? = some 303 then 1 else 0
  /-- The file holds the slots, -/
  file : entries w.doc = w.slots.map Prod.snd
  /-- none twice, -/
  nodup : (w.slots.map fun s => s.1.entry).Nodup
  /-- each as it was written, -/
  genuine : ∀ s ∈ w.slots, s ∈ w.written
  /-- and none is gone that was not edited or deleted. -/
  kept : ∀ s ∈ w.written, s ∈ w.slots ∨ ∃ c ∈ w.history, c.Explicit same s.1

/-- An update that is about to write finds the item it was built from at its index, or nothing. -/
def StillThere (same : Sameness) (w : World) : Act → Prop
  | .write i => ∀ e ∈ (w.handlers i).bind Handler.editing?,
      e.1 < w.slots.length → same.Rel e.2 (w.tagAt e.1)
  | _ => True

instance (same : Sameness) (tag tag' : Tag) : Decidable (same.Rel tag tag') :=
  match same with
  | .entry => inferInstanceAs (Decidable (tag.entry = tag'.entry))
  | .version => inferInstanceAs (Decidable (tag = tag'))

instance (same : Sameness) (w : World) (act : Act) : Decidable (StillThere same w act) :=
  match act with
  | .write i => inferInstanceAs (Decidable (∀ e ∈ (w.handlers i).bind Handler.editing?,
      e.1 < w.slots.length → same.Rel e.2 (w.tagAt e.1)))
  | .create .. | .read .. | .delete .. => isTrue trivial

structure EditInv (same : Sameness) (w : World) : Prop extends EditsExact same w where
  catalog : IsCatalog w.doc
  below : ∀ s ∈ w.written, s.1.entry < w.next

section
variable {same : Sameness} {w w' : World} {i index : ℕ} {h' : Handler} {doc item : Json} {act : Act}

theorem changes_eq_zero (h : EditsExact same w) (hi : (w.handlers i).bind Handler.status? ≠ some 303) :
    (w.history.filter fun c => c.request = i).length = 0 := by
  rw [h.changes i, if_neg hi]

namespace EditInv

theorem goto (h : EditInv same w) (hi : (w.handlers i).bind Handler.status? ≠ some 303)
    (hstatus : h'.status? ≠ some 303) (hwritten : ∀ status, h' = .written status → status = 404) :
    EditInv same (w.goto i h') where
  exact := h.exact
  status j status hj := by
    by_cases hji : j = i
    · subst hji
      rw [World.goto_handlers_self, Option.some.injEq] at hj
      exact .inr (hwritten status hj)
    · rw [World.goto_handlers_of_ne _ _ hji] at hj
      exact h.status j status hj
  changes j := by
    by_cases hji : j = i
    · subst hji
      rw [World.goto_handlers_self, Option.bind_some, if_neg hstatus]
      exact changes_eq_zero (w := w) h.toEditsExact hi
    · rw [World.goto_handlers_of_ne _ _ hji]
      exact h.changes j
  file := h.file
  nodup := h.nodup
  genuine := h.genuine
  kept := h.kept
  catalog := h.catalog
  below := h.below

theorem commit {slots new : List (Tag × Json)} {change : Change} (h : EditInv same w)
    (hi : (w.handlers i).bind Handler.status? ≠ some 303) (hrequest : change.request = i)
    (hstatus : h'.status? = some 303) (hcatalog : IsCatalog doc) (hfile : entries doc = slots.map Prod.snd)
    (hnodup : (slots.map fun s => s.1.entry).Nodup) (hnew : ∀ s ∈ new, s ∈ slots ∧ s.1.entry ≤ w.next)
    (hgenuine : ∀ s ∈ slots, s ∈ w.slots ∨ s ∈ new)
    (hkept : ∀ s ∈ w.slots, s ∈ slots ∨ change.Explicit same s.1)
    (hexact : ∀ builtFrom replaced, change = .edited i builtFrom replaced → same.Rel builtFrom replaced) :
    EditInv same ((w.commit doc slots change new).goto i h') where
  exact j builtFrom replaced hmem := by
    rcases List.mem_append.1 hmem with hmem | hmem
    · exact h.exact j builtFrom replaced hmem
    · obtain rfl := List.mem_singleton.1 hmem
      obtain rfl : j = i := hrequest
      exact hexact _ _ rfl
  status j status hj := by
    by_cases hji : j = i
    · subst hji
      rw [World.goto_handlers_self, Option.some.injEq] at hj
      subst hj
      exact .inl (Option.some.inj hstatus)
    · rw [World.goto_handlers_of_ne _ _ hji] at hj
      exact h.status j status hj
  changes j := by
    have happend : ((w.commit doc slots change new).goto i h').history.filter (fun c => c.request = j) =
        (w.history.filter fun c => c.request = j) ++ if i = j then [change] else [] := by
      rw [World.goto, World.commit, List.filter_append, List.filter_singleton, hrequest]
      simp
    by_cases hji : j = i
    · subst hji
      rw [World.goto_handlers_self, Option.bind_some, if_pos hstatus, happend, if_pos rfl,
        List.length_append, changes_eq_zero h.toEditsExact hi]
      rfl
    · rw [World.goto_handlers_of_ne _ _ hji, happend, if_neg (Ne.symm hji), List.append_nil]
      exact h.changes j
  file := hfile
  nodup := hnodup
  genuine s hs := by
    rcases hgenuine s hs with hs | hs
    · exact List.mem_append_left _ (h.genuine s hs)
    · exact List.mem_append_right _ hs
  kept s hs := by
    rcases List.mem_append.1 hs with hs | hs
    · rcases h.kept s hs with hs | ⟨c, hc, hexp⟩
      · rcases hkept s hs with hs | hexp
        · exact .inl hs
        · exact .inr ⟨change, List.mem_append_right _ (List.mem_singleton.2 rfl), hexp⟩
      · exact .inr ⟨c, List.mem_append_left _ hc, hexp⟩
    · exact .inl (hnew s hs).1
  catalog := hcatalog
  below s hs := by
    rcases List.mem_append.1 hs with hs | hs
    · exact Nat.lt_succ_of_lt (h.below s hs)
    · exact Nat.lt_succ_of_le (hnew s hs).2

theorem below_of_mem_slots (h : EditInv same w) {s : Tag × Json} (hs : s ∈ w.slots) :
    s.1.entry < w.next := h.below s (h.genuine s hs)

theorem init (doc : {doc : Json // IsCatalog doc}) : EditInv same (.init doc) where
  exact _ _ _ hmem := by cases hmem
  status _ _ hj := by cases hj
  changes _ := rfl
  file := by
    rw [World.init, List.map_map]
    exact (List.zipIdx_map_fst 0 (entries doc.1)).symm
  nodup := by
    rw [World.init, List.map_map]
    exact (List.zipIdx_map_snd 0 (entries doc.1)).symm ▸ List.nodup_range'
  genuine _ hs := hs
  kept _ hs := .inl hs
  catalog := doc.2
  below s hs := by
    obtain ⟨⟨item, k⟩, hk, rfl⟩ := List.mem_map.1 hs
    have hlt := (List.mem_zipIdx hk).2.1
    simpa [World.init] using hlt

theorem length_slots (h : EditInv same w) : (entries w.doc).length = w.slots.length := by
  rw [h.file, List.length_map]

theorem create {tag : Tag} (h : EditInv same w) (hi : w.handlers i = none) (hcatalog : IsCatalog doc)
    (hentries : entries doc = entries w.doc ++ [item]) (htag : tag.entry = w.next) :
    EditInv same ((w.commit doc (w.slots ++ [(tag, item)]) (.created i tag) [(tag, item)]).goto i
      (.answered 303)) := by
  refine h.commit (by simp [hi]) rfl rfl hcatalog ?_ ?_ ?_ ?_ ?_ ?_
  · rw [hentries, h.file, List.map_append]; rfl
  · rw [List.map_append]
    refine List.Nodup.append h.nodup (List.nodup_singleton _) fun n hn hn' => ?_
    obtain ⟨s, hs, rfl⟩ := List.mem_map.1 hn
    have hlt := h.below_of_mem_slots hs
    simp only [List.map_cons, List.map_nil, List.mem_singleton] at hn'
    omega
  · intro s hs
    rw [List.mem_singleton] at hs
    subst hs
    exact ⟨by simp, le_of_eq htag⟩
  · intro s hs
    exact List.mem_append.1 hs
  · intro s hs
    exact .inl (List.mem_append_left _ hs)
  · intro _ _ hc; cases hc

theorem tagAt_eq (hlt : index < w.slots.length) : w.tagAt index = w.slots[index].1 := by
  simp [World.tagAt, hlt]

theorem write {builtFrom : Tag} (h : EditInv same w) (hi : w.handlers i = some (.editing index builtFrom item))
    (hlt : index < w.slots.length) (hcatalog : IsCatalog doc)
    (hentries : entries doc = (entries w.doc).set index item) (hsame : same.Rel builtFrom (w.tagAt index)) :
    EditInv same ((w.commit doc (w.slots.set index (⟨(w.tagAt index).entry, w.next⟩, item))
      (.edited i builtFrom (w.tagAt index)) [(⟨(w.tagAt index).entry, w.next⟩, item)]).goto i
      (.written 303)) := by
  have htag := tagAt_eq hlt
  refine h.commit (by simp [hi, Handler.status?]) rfl rfl hcatalog ?_ ?_ ?_ ?_ ?_ ?_
  · rw [hentries, h.file, List.map_set]
  · -- the entries of the tags are what they were
    have hmap : (w.slots.set index (⟨(w.tagAt index).entry, w.next⟩, item)).map (fun s => s.1.entry) =
        w.slots.map fun s => s.1.entry := by
      rw [List.map_set]
      refine List.ext_getElem (by simp) fun k hk hk' => ?_
      rw [List.getElem_set]
      split
      · rename_i hik; subst hik; simp [htag]
      · rfl
    rw [hmap]; exact h.nodup
  · intro s hs
    rw [List.mem_singleton] at hs
    subst hs
    refine ⟨List.mem_set hlt _, le_of_lt ?_⟩
    rw [htag]
    exact h.below_of_mem_slots (s := w.slots[index]) (List.getElem_mem hlt)
  · intro s hs
    rw [List.mem_singleton]
    exact List.mem_or_eq_of_mem_set hs
  · intro s hs
    obtain ⟨k, hk, rfl⟩ := List.getElem_of_mem hs
    by_cases hki : index = k
    · subst hki
      exact .inr ⟨htag, htag ▸ hsame⟩
    · refine .inl ?_
      rw [← List.getElem_set_ne hki (a := (⟨(w.tagAt index).entry, w.next⟩, item)) (by simpa using hk)]
      exact List.getElem_mem _
  · intro _ _ hc
    cases hc
    exact hsame

theorem delete (h : EditInv same w) (hi : w.handlers i = none) (hlt : index < w.slots.length)
    (hcatalog : IsCatalog doc) (hentries : entries doc = (entries w.doc).eraseIdx index) :
    EditInv same ((w.commit doc (w.slots.eraseIdx index) (.deleted i (w.tagAt index)) []).goto i
      (.answered 303)) := by
  have hsub : (w.slots.eraseIdx index).Sublist w.slots := List.eraseIdx_sublist ..
  refine h.commit (by simp [hi]) rfl rfl hcatalog ?_ (h.nodup.sublist (hsub.map _)) ?_ ?_ ?_ ?_
  · rw [hentries, h.file, List.eraseIdx_map]
  · intro s hs; cases hs
  · intro s hs; exact .inl (hsub.subset hs)
  · intro s hs
    obtain ⟨k, hk, rfl⟩ := List.getElem_of_mem hs
    by_cases hki : k = index
    · subst hki
      exact .inr (tagAt_eq hlt)
    · exact .inl (List.mem_eraseIdx_iff_getElem.2 ⟨k, hk, hki, rfl⟩)
  · intro _ _ hc; cases hc

theorem step (h : EditInv same w) (hok : StillThere same w act) (hs : editStep w act = some w') :
    EditInv same w' := by
  cases act with
  | create i form =>
    simp only [editStep] at hs
    split at hs <;> [cases hs; rename_i hi]
    have hnone : (w.handlers i).bind Handler.status? ≠ some 303 := by simp [hi]
    split at hs
    · rename_i e
      obtain rfl := Option.some.inj hs
      exact h.goto hnone (by cases e <;> decide) (fun _ hw => by cases hw)
    · rename_i item
      obtain ⟨doc, happend, hcatalog, hentries⟩ := appendItem_eq item h.catalog
      rw [happend] at hs
      obtain rfl := Option.some.inj hs
      exact h.create hi hcatalog hentries rfl
  | read i index form =>
    simp only [editStep] at hs
    split at hs <;> [cases hs; rename_i hi]
    have hnone : (w.handlers i).bind Handler.status? ≠ some 303 := by simp [hi]
    split at hs
    · rename_i e _
      obtain rfl := Option.some.inj hs
      exact h.goto hnone (by cases e <;> decide) (fun _ hw => by cases hw)
    · split at hs
      · rename_i e _
        obtain rfl := Option.some.inj hs
        exact h.goto hnone (by cases e <;> decide) (fun _ hw => by cases hw)
      · obtain rfl := Option.some.inj hs
        exact h.goto hnone (by simp [Handler.status?]) (fun _ hw => by cases hw)
  | write i =>
    simp only [editStep] at hs
    split at hs <;> [rename_i index builtFrom item hi; cases hs]
    by_cases hlt : index < w.slots.length
    · obtain ⟨doc, hset, hcatalog, hentries⟩ :=
        setItem_of_lt item h.catalog (h.length_slots.symm ▸ hlt)
      rw [hset] at hs
      obtain rfl := Option.some.inj hs
      exact h.write hi hlt hcatalog hentries (hok (index, builtFrom) (by rw [hi]; rfl) hlt)
    · rw [setItem_of_le h.catalog (by rw [h.length_slots]; omega)] at hs
      obtain rfl := Option.some.inj hs
      exact h.goto (by simp [hi, Handler.status?]) (by decide) (fun _ hw => by cases hw; rfl)
  | delete i index =>
    simp only [editStep] at hs
    split at hs <;> [cases hs; rename_i hi]
    by_cases hlt : index < w.slots.length
    · obtain ⟨doc, hpop, hcatalog, hentries⟩ := popItem_of_lt h.catalog (h.length_slots.symm ▸ hlt)
      rw [hpop] at hs
      obtain rfl := Option.some.inj hs
      exact h.delete hi hlt hcatalog hentries
    · rw [popItem_of_le h.catalog (by rw [h.length_slots]; omega)] at hs
      obtain rfl := Option.some.inj hs
      exact h.goto (by simp [hi]) (by decide) (fun _ hw => by cases hw)

end EditInv

/-- In a run whose edits all keep the promise, a step keeps it exactly if it meets the condition. -/
theorem stillThere_iff (h : EditInv same w) (hs : editStep w act = some w') :
    EditsExact same w' ↔ StillThere same w act := by
  refine ⟨fun hexact => ?_, fun hok => (h.step hok hs).toEditsExact⟩
  cases act with
  | write i =>
    rintro ⟨index, builtFrom⟩ he hlt
    obtain ⟨h', hi, hh'⟩ := Option.bind_eq_some_iff.1 he
    obtain ⟨item, rfl⟩ : ∃ item, h' = .editing index builtFrom item := by
      cases h' with
      | editing index' builtFrom' item => cases hh'; exact ⟨item, rfl⟩
      | written => cases hh'
      | answered => cases hh'
    obtain ⟨doc, hset, -, -⟩ := setItem_of_lt item h.catalog (h.length_slots.symm ▸ hlt)
    simp only [editStep, hi, hset, Option.some.injEq] at hs
    subst hs
    exact hexact.exact i builtFrom _ (List.mem_append_right _ (List.mem_singleton.2 rfl))
  | _ => trivial

end

/-- In every run in which an update only writes while the item it was built from is still at its index, or
nothing is there: every edit is exact, and no other item is lost, overwritten or duplicated. -/
theorem editsExact_of_stillThere (same : Sameness) (doc : {doc : Json // IsCatalog doc}) (w : World)
    (h : Reaches editStep (StillThere same) (.init doc) w) : EditsExact same w :=
  (h.invariant (I := EditInv same) (.init doc) fun _ _ _ hI hok hs => hI.step hok hs).toEditsExact

def twoItems : {doc : Json // IsCatalog doc} :=
  ⟨.obj [("itemListElement", .arr [.obj [("name", .str "desk")], .obj [("name", .str "lamp")]])], .items rfl⟩

/-- Two updates that overlap, of different items. -/
def overlappingActs : List Act :=
  [.read 0 0 fun _ => .ok (.obj [("name", .str "chair")]), .read 1 1 fun _ => .ok (.obj [("name", .str "sofa")]),
    .write 1, .write 0]

theorem editsExact_of_stillThere_overlapping : ∃ w,
    w.history = [.edited 1 ⟨1, 1⟩ ⟨1, 1⟩, .edited 0 ⟨0, 0⟩ ⟨0, 0⟩] ∧ EditsExact .version w := by
  have hrun : (runUnder editStep (StillThere .version) (.init twoItems) overlappingActs).map World.history =
      some [.edited 1 ⟨1, 1⟩ ⟨1, 1⟩, .edited 0 ⟨0, 0⟩ ⟨0, 0⟩] := by decide
  obtain ⟨w, hw, hhistory⟩ := Option.map_eq_some_iff.1 hrun
  exact ⟨w, hhistory, editsExact_of_stillThere .version twoItems w (reaches_of_runUnder hw)⟩

/-- The desk is deleted between the read and the write of its update, which then hits the lamp. -/
def crossingActs : List Act :=
  [.read 0 0 fun _ => .ok (.obj [("name", .str "chair")]), .delete 1 0, .write 0]

theorem not_editsExact : ¬ ∃ same, ∀ doc w, Reaches editStep anyAct (.init doc) w → EditsExact same w := by
  rintro ⟨same, h⟩
  obtain ⟨w, hw, hp⟩ := exists_reaches_of_run editStep anyAct (.init twoItems) crossingActs
    (fun w => decide (.edited 0 ⟨0, 0⟩ ⟨1, 1⟩ ∈ w.history)) (fun _ _ _ => trivial) (by decide)
  have hrel := (h twoItems w hw).exact 0 ⟨0, 0⟩ ⟨1, 1⟩ (of_decide_eq_true hp)
  revert hrel
  cases same <;> decide

end Catalog

end Embassy
