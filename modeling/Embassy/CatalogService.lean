import Embassy.CatalogAtomic
import Embassy.CatalogSaved

/-!
# The admin's catalogs and manifest as they are served (`admin/main.py`, `admin/catalog_store.py`)

Requests that create, edit and delete items and that edit the manifest, with anything in between: each takes
the lock of its file for its operation, whose system calls are those of `Catalog.step`, and the process
may be killed and started again at any point. An edit reads the item without the lock.

At every point each file is what the operations that were committed to it make of the first one, in the order
in which they were committed; and the catalogs hold valid items only (`served_of_reaches`).
-/

namespace Embassy
open Lib

namespace Catalog

/-- The temporary file of the operation. -/
def Phase.tmp? : Phase → Option Path
  | writing _ _ tmp | flushed _ _ tmp | synced _ _ tmp | closed _ _ tmp | readable _ _ tmp
  | failing _ _ tmp | unlinkRaised _ _ tmp => some tmp
  | _ => none

namespace Service

/-- A request of an admin who is logged in. -/
inductive Request
  /-- `catalog_create` -/
  | create (kind : String) (form : Form)
  /-- `catalog_update`; `Path(ge=0)` keeps the index from being negative. -/
  | update (kind : String) (index : ℕ) (form : Form)
  /-- `catalog_delete` -/
  | delete (kind : String) (index : ℕ)
  /-- `manifest_update`, on this day. -/
  | manifest (form : Form) (today : String)

inductive Handler
  /-- At `with _lock_for(path)`. -/
  | waiting (op : Op)
  /-- Inside it. -/
  | storing (op : Op) (phase : Phase)
  | answered

structure World where
  fs : Fs
  /-- Which request holds the lock of a file. -/
  locks : Path → Option ℕ
  handlers : ℕ → Option Handler
  /-- The operations that replaced a file, in order. -/
  committed : List (Path × Op)

def World.init (fs : Fs) : World := ⟨fs, fun _ => none, fun _ => none, []⟩

def World.goto (i : ℕ) (h : Handler) (w : World) : World :=
  { w with handlers := Function.update w.handlers i (some h) }

section
variable (py : Python)

/-- `_read_json`, on the files as they are. -/
def docAt (fs : Fs) (path : Path) : Option Json := (fs.get? path).bind fun file => (py.codec.load file.content).toOption

/-- `get_item`, on the files as they are. -/
def readItem (fs : Fs) (kind : String) (index : ℕ) : Except StoreExc Json := do
  match docAt py fs (← catalogPath kind) with
  | some doc => getItem index doc
  | none => .error .other

/-- `dict(existing) if existing else {}`; pairs that `dict` would take are no item. -/
def startingFrom : Json → Except ItemExc (List (String × Json))
  | .obj members => .ok members
  | v => if v.truthy then .error .other else .ok []

/-- The item of the form, if it is valid. -/
def validated (form : Form) (itemType : String) (existing : List (String × Json)) : Except ItemExc Json := do
  let item ← itemFromForm form itemType existing
  validateItem py.repr item
  return .obj item

/-- What a request comes to before it needs a lock. -/
def begin (fs : Fs) : Request → Handler
  | .create kind form =>
    match kinds.lookup kind with
    | none => .answered
    | some itemType =>
      match validated py form itemType [] with
      | .error _ => .answered
      | .ok item => .waiting (.addItem kind item)
  | .update kind index form =>
    match kinds.lookup kind with
    | none => .answered
    | some itemType =>
      match readItem py fs kind index with
      | .error _ => .answered
      | .ok existing =>
        match startingFrom existing >>= validated py form itemType with
        | .error _ => .answered
        | .ok item => .waiting (.updateItem kind index item)
  | .delete kind index =>
    match kinds.lookup kind with
    | none => .answered
    | some _ => .waiting (.deleteItem kind index)
  | .manifest form today => .waiting (.updateManifest (manifestMutate form today))

inductive Act
  | arrive (i : ℕ) (r : Request)
  | lock (i : ℕ)
  /-- The next system call of a request, or its failure. -/
  | call (i : ℕ) (e : Event)
  /-- The process is killed and started again. -/
  | restart

def step (w : World) : Act → Option World
  | .arrive i r =>
    match w.handlers i with
    | some _ => none
    | none => some (w.goto i (begin py w.fs r))
  | .lock i =>
    match w.handlers i with
    | some (.waiting op) =>
      match op.path with
      | .error _ => some (w.goto i .answered)
      | .ok path =>
        match w.locks path with
        | some _ => none
        | none => some ({ w with locks := Function.update w.locks path (some i) }.goto i (.storing op .start))
    | _ => none
  | .call i e =>
    match w.handlers i with
    | some (.storing op phase) =>
      match op.path with
      | .error _ => none
      | .ok path =>
        match Catalog.step py.codec op ⟨w.fs, phase⟩ e with
        | none => none
        | some ⟨fs, .returned _ _⟩ =>
          some ({ w with
            fs, locks := Function.update w.locks path none,
            committed := w.committed ++ [(path, op)] }.goto i .answered)
        | some ⟨fs, .raised⟩ | some ⟨fs, .unlinkRaised _ _ _⟩ =>
          some ({ w with fs, locks := Function.update w.locks path none }.goto i .answered)
        | some ⟨fs, phase⟩ => some ({ w with fs }.goto i (.storing op phase))
    | _ => none
  | .restart => some ⟨cleanup w.fs, fun _ => none, fun _ => none, w.committed⟩

/-- The document after an operation on its file was committed. -/
def commit (op : Op) (doc : Json) : Json :=
  match op.mutate doc with
  | .ok doc => Json.saved py.float doc
  | .error _ => doc

/-- What the operations on the file make of its document. -/
def replay (path : Path) (doc : Json) (committed : List (Path × Op)) : Json :=
  committed.foldl (fun doc c => if c.1 = path then commit py c.2 doc else doc) doc

/-- What is promised of a run from the files `fs`. -/
structure Served (fs : Fs) (w : World) : Prop where
  /-- A file is what the operations committed to it make of it. -/
  replayed : ∀ path ∈ targets, ∀ doc, docAt py fs path = some doc →
    docAt py w.fs path = some (replay py path doc w.committed)
  /-- A catalog has valid items, all of its type. -/
  good : ∀ kind itemType, (kind, itemType) ∈ kinds →
    ∃ doc, docAt py w.fs ⟨catalogDir, kind ++ ".json"⟩ = some doc ∧ GoodCatalog py.repr itemType doc

end

/-! ### One operation among others -/

section
variable {py : Python} {op : Op} {path tmp : Path} {fs fs' : Fs} {phase phase' : Phase} {doc : Json} {e : Event}

/-- The document is the file's, edited by the operation. -/
def EditedAt (py : Python) (op : Op) (path : Path) (fs : Fs) (doc : Json) : Prop :=
  ∃ old, docAt py fs path = some old ∧ op.mutate old = .ok doc

/-- What holds of an operation inside its lock. -/
def Holds (py : Python) (op : Op) (path : Path) (fs : Fs) : Phase → Prop
  | .start => True
  | .loaded p doc => p = path ∧ docAt py fs path = some doc
  | .mutated p doc => p = path ∧ EditedAt py op path fs doc
  | .writing p doc tmp => p = path ∧ EditedAt py op path fs doc ∧ TempName tmp ∧ (fs.get? tmp).isSome
  | .failing p _ tmp => p = path ∧ TempName tmp ∧ (fs.get? tmp).isSome
  | .flushed p doc tmp | .synced p doc tmp | .closed p doc tmp | .readable p doc tmp =>
    p = path ∧ EditedAt py op path fs doc ∧ TempName tmp ∧ (py.codec.dump doc).2 = none ∧
      ∃ mode, fs.get? tmp = some ⟨py.codec.text doc, mode⟩
  | .returned .. | .raised | .unlinkRaised .. => False

/-- How an operation goes on. -/
inductive Outcome (py : Python) (op : Op) (path : Path) (fs : Fs) (phase : Phase) (fs' : Fs) : Phase → Prop
  /-- Inside its lock; of the files, its temporary one may change. -/
  | live {next} (hholds : Holds py op path fs' next) (hframe : ∀ p, next.tmp? ≠ some p → fs'.get? p = fs.get? p)
      (htmp : ∀ tmp, next.tmp? = some tmp → phase.tmp? = some tmp ∨ fs.get? tmp = none) :
      Outcome py op path fs phase fs' next
  | raised (hframe : ∀ p, phase.tmp? ≠ some p → fs'.get? p = fs.get? p) : Outcome py op path fs phase fs' .raised
  | unlinkRaised {p doc tmp} (hframe : fs' = fs) : Outcome py op path fs phase fs' (.unlinkRaised p doc tmp)
  /-- The temporary file replaced the operation's. -/
  | returned {p doc} (hedited : EditedAt py op path fs doc) (hload : docAt py fs' path = some (Json.saved py.float doc))
      (hframe : ∀ p, p ≠ path → phase.tmp? ≠ some p → fs'.get? p = fs.get? p) :
      Outcome py op path fs phase fs' (.returned p doc)

theorem tempName_ne (h : TempName tmp) (hpath : path ∈ targets) : path ≠ tmp := by
  rintro rfl
  exact not_swept_of_mem_targets hpath h.swept

theorem docAt_congr (h : fs'.get? path = fs.get? path) : docAt py fs' path = docAt py fs path := by
  rw [docAt, docAt, h]

theorem Holds.congr (h : Holds py op path fs phase) (hpath : fs'.get? path = fs.get? path)
    (htmp : ∀ tmp, phase.tmp? = some tmp → fs'.get? tmp = fs.get? tmp) : Holds py op path fs' phase := by
  have hedited : ∀ doc, EditedAt py op path fs doc → EditedAt py op path fs' doc := by
    rintro doc ⟨old, hold, hdoc⟩
    exact ⟨old, (docAt_congr hpath).trans hold, hdoc⟩
  cases phase with
  | start => trivial
  | loaded p doc => exact ⟨h.1, (docAt_congr hpath).trans h.2⟩
  | mutated p doc => exact ⟨h.1, hedited doc h.2⟩
  | writing p doc tmp =>
    obtain ⟨hp, hdoc, hname, hsome⟩ := h
    exact ⟨hp, hedited doc hdoc, hname, by rw [htmp tmp rfl]; exact hsome⟩
  | failing p doc tmp =>
    obtain ⟨hp, hname, hsome⟩ := h
    exact ⟨hp, hname, by rw [htmp tmp rfl]; exact hsome⟩
  | flushed p doc tmp | synced p doc tmp | closed p doc tmp | readable p doc tmp =>
    obtain ⟨hp, hdoc, hname, hdump, mode, hfile⟩ := h
    exact ⟨hp, hedited doc hdoc, hname, hdump, mode, (htmp tmp rfl).trans hfile⟩
  | returned | raised | unlinkRaised => exact h

theorem EditedAt.congr (h : EditedAt py op path fs doc) (hpath : fs'.get? path = fs.get? path) :
    EditedAt py op path fs' doc := by
  obtain ⟨old, hold, hdoc⟩ := h
  exact ⟨old, (docAt_congr hpath).trans hold, hdoc⟩

theorem Outcome.same (h : Holds py op path fs phase') (htmp : ∀ tmp, phase'.tmp? = some tmp → phase.tmp? = some tmp) :
    Outcome py op path fs phase fs phase' :=
  .live h (fun _ _ => rfl) fun tmp ht => .inl (htmp tmp ht)

theorem get?_set_of_path (htmp : TempName tmp) (hpath : path ∈ targets) (file : File) :
    (fs.set tmp file).get? path = fs.get? path :=
  Dict.get?_set_of_ne _ _ (tempName_ne htmp hpath)

/-- What the next call of an operation does. -/
theorem outcome_of_step (h : Holds py op path fs phase) (hpath : op.path = .ok path)
    (hs : Catalog.step py.codec op ⟨fs, phase⟩ e = some ⟨fs', phase'⟩) :
    Outcome py op path fs phase fs' phase' := by
  have htarget := mem_targets_of_path hpath
  have hframe : ∀ {tmp : Path} {file : File} {p : Path}, some tmp ≠ some p →
      (fs.set tmp file).get? p = fs.get? p :=
    fun hne => Dict.get?_set_of_ne _ _ fun heq => hne (congrArg some heq.symm)
  cases e with
  | succeeds =>
    cases phase with
    | start =>
      simp only [Catalog.step] at hs
      split at hs
      · rename_i p doc hread
        cases hs
        obtain ⟨hp, file, hfile, hload⟩ := readJson_eq_some hread
        obtain rfl := Except.ok.inj (hpath.symm.trans hp)
        refine .same ⟨rfl, ?_⟩ fun _ => id
        rw [docAt, hfile, Option.bind_some, hload]
        rfl
      · cases hs
        exact .raised fun _ _ => rfl
    | loaded p old =>
      obtain ⟨rfl, hold⟩ := h
      simp only [Catalog.step] at hs
      split at hs <;> cases hs
      · rename_i hdoc
        exact .same ⟨rfl, old, hold, hdoc⟩ fun _ => id
      · exact .raised fun _ _ => rfl
    | writing p doc tmp =>
      obtain ⟨rfl, hdoc, hname, hsome⟩ := h
      simp only [Catalog.step] at hs
      split at hs <;> cases hs
      · rename_i text hdump
        refine .live ⟨rfl, hdoc.congr (get?_set_of_path hname htarget _), hname, congrArg Prod.snd hdump, 0o600, ?_⟩
          (fun _ hne => hframe hne) fun _ => .inl
        exact Dict.get?_set_self ..
      · exact .same ⟨rfl, hname, hsome⟩ fun _ => id
    | flushed p doc tmp => cases hs; exact .same h fun _ => id
    | synced p doc tmp => cases hs; exact .same h fun _ => id
    | closed p doc tmp =>
      obtain ⟨rfl, hdoc, hname, hdump, mode, hfile⟩ := h
      have hchmod : chmod fs tmp 0o644 = some (fs.set tmp ⟨py.codec.text doc, 0o644⟩) := by rw [chmod, hfile]; rfl
      simp only [Catalog.step, hchmod] at hs
      cases hs
      refine .live ⟨rfl, hdoc.congr (get?_set_of_path hname htarget _), hname, hdump, 0o644, ?_⟩
        (fun _ hne => hframe hne) fun _ => .inl
      exact Dict.get?_set_self ..
    | readable p doc tmp =>
      obtain ⟨rfl, hdoc, hname, hdump, mode, hfile⟩ := h
      have hreplace : replace fs tmp p = some ((fs.erase tmp).set p ⟨py.codec.text doc, mode⟩) := by
        rw [replace, hfile]
        rfl
      simp only [Catalog.step, hreplace] at hs
      cases hs
      refine .returned hdoc ?_ fun q hq hne => ?_
      · rw [docAt, Dict.get?_set_self, Option.bind_some, Python.load_text hdump]
        rfl
      · rw [Dict.get?_set_of_ne _ _ hq, Dict.get?_erase_of_ne _ fun heq => hne (congrArg some heq.symm)]
    | failing p doc tmp =>
      cases hs
      exact .raised fun q hne => Dict.get?_erase_of_ne _ fun heq => hne (congrArg some heq.symm)
    | mutated | returned | raised | unlinkRaised => cases hs
  | raises =>
    cases phase with
    | start => cases hs; exact .raised fun _ _ => rfl
    | loaded p doc => cases hs; exact .raised fun _ _ => rfl
    | mutated p doc => cases hs; exact .raised fun _ _ => rfl
    | writing p doc tmp => cases hs; exact .same ⟨h.1, h.2.2⟩ fun _ => id
    | flushed p doc tmp | synced p doc tmp | closed p doc tmp | readable p doc tmp =>
      obtain ⟨hp, -, hname, -, mode, hfile⟩ := h
      cases hs
      exact .same ⟨hp, hname, by rw [hfile]; rfl⟩ fun _ => id
    | failing p doc tmp => cases hs; exact .unlinkRaised rfl
    | returned | raised | unlinkRaised => cases hs
  | mkstemp random =>
    cases phase with
    | mutated p doc =>
      obtain ⟨rfl, hdoc⟩ := h
      simp only [Catalog.step] at hs
      split at hs
      · cases hs
      · rename_i hfree
        cases hs
        have hname : TempName (tempPath p random) := ⟨p, htarget, random, rfl⟩
        refine .live ⟨rfl, hdoc.congr (get?_set_of_path hname htarget _), hname, ?_⟩ (fun _ hne => hframe hne)
          fun tmp ht => .inr ?_
        · exact (congrArg Option.isSome (Dict.get?_set_self ..)).trans rfl
        · obtain rfl := Option.some.inj ht
          simpa using hfree
    | _ => cases hs
  | reached n =>
    cases phase with
    | writing p doc tmp =>
      obtain ⟨rfl, hdoc, hname, hsome⟩ := h
      cases hs
      refine .live ⟨rfl, hdoc.congr (get?_set_of_path hname htarget _), hname, ?_⟩ (fun _ hne => hframe hne)
        fun _ => .inl
      exact (congrArg Option.isSome (Dict.get?_set_self ..)).trans rfl
    | _ => cases hs

end

/-! ### Operations that keep a catalog good -/

/-- An operation that the routes come to. -/
def GoodOp (repr : Json → String) : Op → Prop
  | .addItem kind item => ∃ itemType, (kind, itemType) ∈ kinds ∧ GoodItem repr itemType item
  | .updateItem kind index item =>
    (∃ k : ℕ, index = k) ∧ ∃ itemType, (kind, itemType) ∈ kinds ∧ GoodItem repr itemType item
  | .deleteItem _ index => ∃ k : ℕ, index = k
  | .updateManifest _ => True

section
variable {py : Python} {form : Form} {item item' : List (String × Json)} {itemType kind name : String} {op : Op}
  {fs : Fs} {doc doc' v : Json}

theorem kinds_unique : ∀ a ∈ kinds, ∀ b ∈ kinds, a.1 ++ ".json" = b.1 ++ ".json" → a = b := by decide

theorem mem_kinds_of_lookup (h : kinds.lookup kind = some itemType) : (kind, itemType) ∈ kinds := by
  obtain ⟨l₁, l₂, heq, -⟩ := List.lookup_eq_some_iff.1 h
  rw [heq]
  simp

theorem catalogPath_eq {kind' : String} (hmem : (kind', itemType) ∈ kinds)
    (h : catalogPath kind = .ok ⟨catalogDir, kind' ++ ".json"⟩) : kind = kind' := by
  unfold catalogPath at h
  split at h
  · rename_i f hf
    have hname : f.1 = kind := by simpa using List.find?_some hf
    obtain ⟨k, hk, rfl⟩ := List.mem_map.1 (List.mem_of_find?_eq_some hf)
    have hpath := congrArg Path.name (Except.ok.inj h)
    exact hname.symm.trans (congrArg Prod.fst (kinds_unique k hk _ hmem hpath))
  · cases h

theorem setCore_get? {fields : List Field} (h : setCore form fields item = .ok item')
    (hname : name ∉ fields.map Field.name) : Json.get? item' name = Json.get? item name := by
  induction fields generalizing item with
  | nil => rw [Except.ok.inj h]
  | cons field fields ih =>
    rw [List.map_cons, List.mem_cons, not_or] at hname
    obtain ⟨hne, hname⟩ := hname
    obtain ⟨value, -, h⟩ := Json.bind_eq_ok h
    rw [ih h hname]
    split
    · rw [Json.get?_erase, if_neg hne]
    · rw [Json.get?_set, if_neg hne]

theorem type_itemFromForm (h : itemFromForm form itemType item = .ok item') :
    Json.get? item' "@type" = some (.str itemType) := by
  have hnames : ∀ entry ∈ coreFields, "@type" ∉ entry.2.map Field.name := by decide
  unfold itemFromForm at h
  split at h
  · cases h
  · rename_i fields hfields
    obtain ⟨l₁, l₂, heq, -⟩ := List.lookup_eq_some_iff.1 hfields
    obtain ⟨core, hcore, h⟩ := Json.bind_eq_ok h
    have hcoreType : Json.get? core "@type" = some (.str itemType) := by
      rw [setCore_get? hcore (hnames (itemType, fields) (by rw [heq]; simp)), Json.get?_set, if_pos rfl]
    obtain ⟨props, -, h⟩ := Json.bind_eq_ok h
    split at h
    · rw [← Except.ok.inj h, Json.get?_erase, if_neg (by decide)]
      exact hcoreType
    · rw [← Except.ok.inj h, Json.get?_set, if_neg (by decide)]
      exact hcoreType

theorem goodItem_validated (h : validated py form itemType item = .ok v) : GoodItem py.repr itemType v := by
  obtain ⟨item', hitem, h⟩ := Json.bind_eq_ok h
  obtain ⟨⟨⟩, hvalid, h⟩ := Json.bind_eq_ok h
  exact ⟨item', (Except.ok.inj h).symm, hvalid, type_itemFromForm hitem⟩

theorem goodOp_begin {r : Request} (h : begin py fs r = .waiting op) : GoodOp py.repr op := by
  cases r with
  | create kind form =>
    simp only [begin] at h
    split at h
    · cases h
    · rename_i itemType hkind
      split at h <;> cases h
      rename_i hitem
      exact ⟨itemType, mem_kinds_of_lookup hkind, goodItem_validated hitem⟩
  | update kind index form =>
    simp only [begin] at h
    split at h
    · cases h
    · rename_i itemType hkind
      split at h
      · cases h
      · split at h <;> cases h
        rename_i hitem
        obtain ⟨existing, -, hitem⟩ := Json.bind_eq_ok hitem
        exact ⟨⟨index, rfl⟩, itemType, mem_kinds_of_lookup hkind, goodItem_validated hitem⟩
  | delete kind index =>
    simp only [begin] at h
    split at h <;> cases h
    exact ⟨index, rfl⟩
  | manifest form today =>
    cases h
    trivial

theorem begin_ne_storing {r : Request} {phase : Phase} : begin py fs r ≠ .storing op phase := by
  intro h
  cases r with
  | create kind form =>
    simp only [begin] at h
    split at h <;> [cases h; skip]
    split at h <;> cases h
  | update kind index form =>
    simp only [begin] at h
    split at h <;> [cases h; skip]
    split at h <;> [cases h; skip]
    split at h <;> cases h
  | delete kind index =>
    simp only [begin] at h
    split at h <;> cases h
  | manifest form today => cases h

theorem GoodOp.mutate (h : GoodOp py.repr op) (hmem : (kind, itemType) ∈ kinds)
    (hpath : op.path = .ok ⟨catalogDir, kind ++ ".json"⟩) (hdoc : GoodCatalog py.repr itemType doc)
    (hs : op.mutate doc = .ok doc') : GoodCatalog py.repr itemType doc' := by
  have htype : ∀ {kind' itemType' : String}, catalogPath kind' = .ok ⟨catalogDir, kind ++ ".json"⟩ →
      (kind', itemType') ∈ kinds → itemType' = itemType := by
    intro kind' itemType' hp hmem'
    obtain rfl := catalogPath_eq hmem hp
    exact congrArg Prod.snd (kinds_unique _ hmem' _ hmem rfl)
  cases op with
  | addItem kind' item =>
    obtain ⟨itemType', hmem', hitem⟩ := h
    obtain rfl := htype hpath hmem'
    obtain ⟨doc₁, hdoc₁, hcat, hentries⟩ := appendItem_eq item hdoc.isCatalog
    obtain rfl := Except.ok.inj (hdoc₁.symm.trans hs)
    refine ⟨hcat, fun v hv => ?_⟩
    rw [hentries] at hv
    rcases List.mem_append.1 hv with hv | hv
    · exact hdoc.items v hv
    · rw [List.mem_singleton.1 hv]
      exact hitem
  | updateItem kind' index item =>
    obtain ⟨⟨k, rfl⟩, itemType', hmem', hitem⟩ := h
    obtain rfl := htype hpath hmem'
    by_cases hk : k < (entries doc).length
    · obtain ⟨doc₁, hdoc₁, hcat, hentries⟩ := setItem_of_lt item hdoc.isCatalog hk
      obtain rfl := Except.ok.inj (hdoc₁.symm.trans hs)
      refine ⟨hcat, fun v hv => ?_⟩
      rw [hentries] at hv
      rcases List.mem_or_eq_of_mem_set hv with hv | rfl
      · exact hdoc.items v hv
      · exact hitem
    · cases (setItem_of_le hdoc.isCatalog (not_lt.1 hk)).symm.trans hs
  | deleteItem kind' index =>
    obtain ⟨k, rfl⟩ := h
    by_cases hk : k < (entries doc).length
    · obtain ⟨doc₁, hdoc₁, hcat, hentries⟩ := popItem_of_lt hdoc.isCatalog hk
      obtain rfl := Except.ok.inj (hdoc₁.symm.trans hs)
      refine ⟨hcat, fun v hv => ?_⟩
      rw [hentries] at hv
      exact hdoc.items v (List.mem_of_mem_eraseIdx hv)
    · cases (popItem_of_le hdoc.isCatalog (not_lt.1 hk)).symm.trans hs
  | updateManifest mutate =>
    have hne : ∀ k ∈ kinds, (⟨catalogDir, k.1 ++ ".json"⟩ : Path) ≠ manifestPath := by decide
    exact absurd (Except.ok.inj hpath).symm (hne _ hmem)

theorem goodCatalog_saved (h : GoodCatalog py.repr itemType doc) :
    GoodCatalog py.repr itemType (Json.saved py.float doc) := by
  obtain ⟨hcat, hentries⟩ := @Python.entries_saved py _ h.isCatalog
  refine ⟨hcat, fun v hv => ?_⟩
  rw [hentries] at hv
  obtain ⟨u, hu, rfl⟩ := List.mem_map.1 hv
  exact Python.goodItem_saved (h.items u hu)

end

/-! ### The invariant -/

theorem Holds.temp {py : Python} {op : Op} {path tmp : Path} {fs : Fs} {phase : Phase} (h : Holds py op path fs phase)
    (ht : phase.tmp? = some tmp) : TempName tmp ∧ (fs.get? tmp).isSome := by
  cases phase with
  | writing p doc tmp' =>
    obtain rfl := Option.some.inj ht
    exact ⟨h.2.2.1, h.2.2.2⟩
  | failing p doc tmp' =>
    obtain rfl := Option.some.inj ht
    exact ⟨h.2.1, h.2.2⟩
  | flushed p doc tmp' | synced p doc tmp' | closed p doc tmp' | readable p doc tmp' =>
    obtain rfl := Option.some.inj ht
    obtain ⟨-, -, hname, -, mode, hfile⟩ := h
    exact ⟨hname, by rw [hfile]; rfl⟩
  | unlinkRaised => exact h.elim
  | start | loaded | mutated | returned | raised => cases ht

section
variable (py : Python)

structure Inv (fs : Fs) (w : World) : Prop extends Served py fs w where
  waiting : ∀ i op, w.handlers i = some (.waiting op) → GoodOp py.repr op
  storing : ∀ i op phase, w.handlers i = some (.storing op phase) → GoodOp py.repr op ∧
    ∃ path, op.path = .ok path ∧ w.locks path = some i ∧ Holds py op path w.fs phase
  /-- No two operations have the same temporary file. -/
  apart : ∀ i op phase j op' phase' tmp, w.handlers i = some (.storing op phase) →
    w.handlers j = some (.storing op' phase') → phase.tmp? = some tmp → phase'.tmp? = some tmp → i = j

end

section
variable {py : Python} {fs₀ fs' : Fs} {w w' : World} {i : ℕ} {op : Op} {path : Path} {phase phase' : Phase}

theorem mem_targets_of_kind : ∀ k ∈ kinds, (⟨catalogDir, k.1 ++ ".json"⟩ : Path) ∈ targets := by decide

theorem Served.congr (h : Served py fs₀ w) (hdocs : ∀ p ∈ targets, docAt py w'.fs p = docAt py w.fs p)
    (hcommitted : w'.committed = w.committed) : Served py fs₀ w' where
  replayed p hp doc hdoc := by
    rw [hdocs p hp, hcommitted]
    exact h.replayed p hp doc hdoc
  good kind itemType hmem := by
    rw [hdocs _ (mem_targets_of_kind _ hmem)]
    exact h.good kind itemType hmem

/-- Request `i` is at `next` now, and the others where they were. -/
theorem Inv.update (h : Inv py fs₀ w) (next : Handler) (hs : Served py fs₀ w')
    (hhandlers : w'.handlers = Function.update w.handlers i (some next))
    (hwaiting : ∀ op, next = .waiting op → GoodOp py.repr op)
    (hstoring : ∀ op phase, next = .storing op phase → GoodOp py.repr op ∧
      ∃ path, op.path = .ok path ∧ w'.locks path = some i ∧ Holds py op path w'.fs phase)
    (hothers : ∀ j op phase, j ≠ i → w.handlers j = some (.storing op phase) →
      (∃ path, op.path = .ok path ∧ w'.locks path = some j ∧ Holds py op path w'.fs phase) ∧
        ∀ tmp op' phase', phase.tmp? = some tmp → next = .storing op' phase' → phase'.tmp? ≠ some tmp) :
    Inv py fs₀ w' := by
  have hself : ∀ {j h'}, w'.handlers j = some h' → j = i ∧ h' = next ∨ j ≠ i ∧ w.handlers j = some h' := by
    intro j h' hj
    rw [hhandlers, Function.update_apply] at hj
    split at hj <;> rename_i hji
    · exact .inl ⟨hji, (Option.some.inj hj).symm⟩
    · exact .inr ⟨hji, hj⟩
  refine ⟨hs, fun j op hj => ?_, fun j op phase hj => ?_, fun j op phase k op' phase' tmp hj hk ht ht' => ?_⟩
  · rcases hself hj with ⟨-, heq⟩ | ⟨-, hj⟩
    · exact hwaiting op heq.symm
    · exact h.waiting j op hj
  · rcases hself hj with ⟨rfl, heq⟩ | ⟨hji, hj⟩
    · exact hstoring op phase heq.symm
    · exact ⟨(h.storing j op phase hj).1, (hothers j op phase hji hj).1⟩
  · rcases hself hj with ⟨rfl, heq⟩ | ⟨hji, hj⟩ <;> rcases hself hk with ⟨rfl, heq'⟩ | ⟨hki, hk⟩
    · rfl
    · exact absurd ht ((hothers k op' phase' hki hk).2 tmp op phase ht' heq.symm)
    · exact absurd ht' ((hothers j op phase hji hj).2 tmp op' phase' ht heq'.symm)
    · exact h.apart j op phase k op' phase' tmp hj hk ht ht'

/-- A request moves without touching a file or a lock. -/
theorem Inv.goto {next : Handler} (h : Inv py fs₀ w) (hwaiting : ∀ op, next = .waiting op → GoodOp py.repr op)
    (hstoring : ∀ op phase, next ≠ .storing op phase) : Inv py fs₀ (w.goto i next) :=
  h.update next (h.toServed.congr (fun _ _ => rfl) rfl) rfl hwaiting (fun op phase heq => absurd heq (hstoring op phase))
    fun j op phase _ hj => ⟨(h.storing j op phase hj).2, fun _ op' phase' _ heq => absurd heq (hstoring op' phase')⟩

/-- The other operations do not see what one does to its files. -/
theorem Inv.others (h : Inv py fs₀ w) (hi : w.handlers i = some (.storing op phase)) (hpath : op.path = .ok path)
    (hlock : w.locks path = some i) (fs' : Fs) (phase' : Phase)
    (hframe : ∀ p, p ≠ path → phase.tmp? ≠ some p → phase'.tmp? ≠ some p → fs'.get? p = w.fs.get? p)
    (htmp : ∀ tmp, phase'.tmp? = some tmp → phase.tmp? = some tmp ∨ TempName tmp ∧ w.fs.get? tmp = none)
    {j : ℕ} {op₁ : Op} {phase₁ : Phase} (hji : j ≠ i) (hj : w.handlers j = some (.storing op₁ phase₁)) :
    (∃ path₁, op₁.path = .ok path₁ ∧ path₁ ≠ path ∧ w.locks path₁ = some j ∧ Holds py op₁ path₁ fs' phase₁) ∧
      ∀ tmp, phase₁.tmp? = some tmp → phase'.tmp? ≠ some tmp := by
  obtain ⟨-, path₁, hpath₁, hlock₁, hholds₁⟩ := h.storing j op₁ phase₁ hj
  obtain ⟨-, path', hpath', -, hholds⟩ := h.storing i op phase hi
  obtain rfl := Except.ok.inj (hpath.symm.trans hpath')
  have htarget := mem_targets_of_path hpath
  have htarget₁ := mem_targets_of_path hpath₁
  have hne : path₁ ≠ path := by
    rintro rfl
    exact hji (Option.some.inj (hlock₁.symm.trans hlock))
  have hapart : ∀ tmp, phase₁.tmp? = some tmp → phase.tmp? ≠ some tmp := fun tmp ht₁ ht =>
    hji (h.apart j op₁ phase₁ i op phase tmp hj hi ht₁ ht)
  have hapart' : ∀ tmp, phase₁.tmp? = some tmp → phase'.tmp? ≠ some tmp := by
    intro tmp ht₁ ht
    rcases htmp tmp ht with ht | ⟨-, hnone⟩
    · exact hapart tmp ht₁ ht
    · have hsome := (hholds₁.temp ht₁).2
      rw [hnone] at hsome
      cases hsome
  refine ⟨⟨path₁, hpath₁, hne, hlock₁, hholds₁.congr (hframe path₁ hne ?_ ?_) fun tmp ht => ?_⟩, hapart'⟩
  · exact fun ht => tempName_ne (hholds.temp ht).1 htarget₁ rfl
  · intro ht
    rcases htmp path₁ ht with ht | ⟨hname, -⟩
    · exact tempName_ne (hholds.temp ht).1 htarget₁ rfl
    · exact tempName_ne hname htarget₁ rfl
  · exact hframe tmp (tempName_ne (hholds₁.temp ht).1 htarget).symm (hapart tmp ht) (hapart' tmp ht)

theorem Inv.live (h : Inv py fs₀ w) (hi : w.handlers i = some (.storing op phase)) (hpath : op.path = .ok path)
    (hlock : w.locks path = some i) (hholds : Holds py op path fs' phase')
    (hframe : ∀ p, phase'.tmp? ≠ some p → fs'.get? p = w.fs.get? p)
    (htmp : ∀ tmp, phase'.tmp? = some tmp → phase.tmp? = some tmp ∨ w.fs.get? tmp = none) :
    Inv py fs₀ ({ w with fs := fs' }.goto i (.storing op phase')) := by
  have hothers := @Inv.others _ _ _ _ _ _ _ h hi hpath hlock fs' phase' (fun p _ _ hp => hframe p hp)
    fun tmp ht => (htmp tmp ht).imp_right fun hnone => ⟨(hholds.temp ht).1, hnone⟩
  refine h.update (.storing op phase') (h.toServed.congr (fun p hp => docAt_congr (hframe p fun ht => ?_)) rfl)
    rfl (by rintro _ ⟨⟩) ?_ fun j op₁ phase₁ hji hj => ⟨?_, fun tmp op' phase'' ht heq => ?_⟩
  · exact tempName_ne (hholds.temp ht).1 hp rfl
  · rintro _ _ ⟨⟩
    exact ⟨(h.storing i op phase hi).1, path, hpath, hlock, hholds⟩
  · obtain ⟨⟨path₁, hpath₁, -, hlock₁, hholds₁⟩, -⟩ := hothers hji hj
    exact ⟨path₁, hpath₁, hlock₁, hholds₁⟩
  · cases heq
    exact (hothers hji hj).2 tmp ht

theorem Inv.leave {committed : List (Path × Op)} (h : Inv py fs₀ w) (hi : w.handlers i = some (.storing op phase))
    (hpath : op.path = .ok path) (hlock : w.locks path = some i)
    (hframe : ∀ p, p ≠ path → phase.tmp? ≠ some p → fs'.get? p = w.fs.get? p)
    (hs : Served py fs₀ ⟨fs', w.locks, w.handlers, committed⟩) :
    Inv py fs₀ ({ w with fs := fs', locks := Function.update w.locks path none, committed := committed }.goto i
      .answered) := by
  refine h.update .answered ⟨hs.replayed, hs.good⟩ rfl (by rintro _ ⟨⟩) (by rintro _ _ ⟨⟩)
    fun j op₁ phase₁ hji hj => ⟨?_, by rintro _ _ _ _ ⟨⟩⟩
  obtain ⟨⟨path₁, hpath₁, hne, hlock₁, hholds₁⟩, -⟩ := h.others hi hpath hlock fs' .raised
    (fun p hp ht _ => hframe p hp ht) (by rintro _ ⟨⟩) hji hj
  exact ⟨path₁, hpath₁, (Function.update_of_ne hne ..).trans hlock₁, hholds₁⟩

/-- The file is replaced, and nothing of the others. -/
theorem Inv.served_commit {doc : Json} (h : Inv py fs₀ w) (hi : w.handlers i = some (.storing op phase))
    (hpath : op.path = .ok path) (hholds : Holds py op path w.fs phase) (hedited : EditedAt py op path w.fs doc)
    (hload : docAt py fs' path = some (Json.saved py.float doc))
    (hframe : ∀ p, p ≠ path → phase.tmp? ≠ some p → fs'.get? p = w.fs.get? p) :
    Served py fs₀ ⟨fs', w.locks, w.handlers, w.committed ++ [(path, op)]⟩ := by
  obtain ⟨old, hold, hdoc⟩ := hedited
  have hother : ∀ p ∈ targets, p ≠ path → docAt py fs' p = docAt py w.fs p := fun p hp hne =>
    docAt_congr (hframe p hne fun ht => tempName_ne (hholds.temp ht).1 hp rfl)
  refine ⟨fun p hp doc₀ hdoc₀ => ?_, fun kind itemType hmem => ?_⟩
  · have hreplayed := h.replayed p hp doc₀ hdoc₀
    rw [replay, List.foldl_concat, ← replay]
    dsimp only
    split <;> rename_i hne
    · subst hne
      obtain rfl := Option.some.inj (hold.symm.trans hreplayed)
      rw [hload, commit, hdoc]
    · rw [hother p hp (Ne.symm hne)]
      exact hreplayed
  · obtain ⟨doc₁, hdoc₁, hgood⟩ := h.good kind itemType hmem
    by_cases hp : (⟨catalogDir, kind ++ ".json"⟩ : Path) = path
    · subst hp
      obtain rfl := Option.some.inj (hold.symm.trans hdoc₁)
      exact ⟨_, hload, goodCatalog_saved ((h.storing i op phase hi).1.mutate hmem hpath hgood hdoc)⟩
    · exact ⟨doc₁, (hother _ (mem_targets_of_kind _ hmem) hp).trans hdoc₁, hgood⟩

theorem Inv.call {e : Event} (h : Inv py fs₀ w) (hw : step py w (.call i e) = some w') : Inv py fs₀ w' := by
  simp only [Service.step] at hw
  split at hw <;> [skip; cases hw]
  rename_i op phase hi
  obtain ⟨-, path, hpath, hlock, hholds⟩ := h.storing i op phase hi
  rw [hpath] at hw
  dsimp only at hw
  cases hstep : Catalog.step py.codec op ⟨w.fs, phase⟩ e with
  | none =>
    rw [hstep] at hw
    cases hw
  | some s =>
    obtain ⟨fs', phase'⟩ := s
    have houtcome := outcome_of_step hholds hpath hstep
    rw [hstep] at hw
    have hkept : ∀ p ∈ targets, phase.tmp? ≠ some p := fun p hp ht => tempName_ne (hholds.temp ht).1 hp rfl
    cases houtcome with
    | live hholds' hframe htmp =>
      have heq : w' = { w with fs := fs' }.goto i (.storing op phase') := by
        cases phase' with
        | returned | raised | unlinkRaised => exact hholds'.elim
        | _ => exact (Option.some.inj hw).symm
      rw [heq]
      exact h.live hi hpath hlock hholds' hframe htmp
    | raised hframe =>
      obtain rfl := Option.some.inj hw
      exact h.leave hi hpath hlock (fun p _ => hframe p)
        (h.toServed.congr (fun p hp => docAt_congr (hframe p (hkept p hp))) rfl)
    | unlinkRaised hsame =>
      subst hsame
      obtain rfl := Option.some.inj hw
      exact h.leave hi hpath hlock (fun _ _ _ => rfl) (h.toServed.congr (fun _ _ => rfl) rfl)
    | returned hedited hload hframe =>
      obtain rfl := Option.some.inj hw
      exact h.leave hi hpath hlock hframe (h.served_commit hi hpath hholds hedited hload hframe)

theorem Inv.step {act : Act} (h : Inv py fs₀ w) (hw : step py w act = some w') : Inv py fs₀ w' := by
  cases act with
  | arrive i r =>
    simp only [Service.step] at hw
    split at hw
    · cases hw
    · obtain rfl := Option.some.inj hw
      exact h.goto (fun op hop => goodOp_begin hop) fun op phase => begin_ne_storing
  | lock i =>
    simp only [Service.step] at hw
    split at hw <;> [skip; cases hw]
    rename_i op hi
    have hgood := h.waiting i op hi
    split at hw
    · obtain rfl := Option.some.inj hw
      exact h.goto (by rintro _ ⟨⟩) (by rintro _ _ ⟨⟩)
    · rename_i path hpath
      split at hw <;> [cases hw; skip]
      rename_i hfree
      obtain rfl := Option.some.inj hw
      refine h.update (.storing op .start) (h.toServed.congr (fun _ _ => rfl) rfl) rfl (by rintro _ ⟨⟩) ?_
        fun j op₁ phase₁ hji hj => ⟨?_, fun _ _ _ _ heq => by cases heq; rintro ⟨⟩⟩
      · rintro _ _ ⟨⟩
        exact ⟨hgood, path, hpath, Function.update_self .., trivial⟩
      · obtain ⟨-, path₁, hpath₁, hlock₁, hholds₁⟩ := h.storing j op₁ phase₁ hj
        have hne : path₁ ≠ path := by
          rintro rfl
          rw [hfree] at hlock₁
          cases hlock₁
        exact ⟨path₁, hpath₁, (Function.update_of_ne hne ..).trans hlock₁, hholds₁⟩
  | call i e => exact h.call hw
  | restart =>
    obtain rfl := Option.some.inj hw
    have hdocs : ∀ p ∈ targets, docAt py (cleanup w.fs) p = docAt py w.fs p := fun p hp =>
      docAt_congr (get?_cleanup_of_not_swept (not_swept_of_mem_targets hp))
    exact ⟨h.toServed.congr hdocs rfl, by rintro _ _ ⟨⟩, by rintro _ _ _ ⟨⟩, by rintro _ _ _ _ _ _ _ ⟨⟩⟩

/-- From files where every catalog has valid items, in every run: whatever is created, edited and deleted, fails on
the way or is killed, each file loads, as what the operations committed to it make of the first one, and the
catalogs have valid items only. -/
theorem served_of_reaches {ok : World → Act → Prop} (h0 : ∀ kind itemType, (kind, itemType) ∈ kinds →
      ∃ doc, docAt py fs₀ ⟨catalogDir, kind ++ ".json"⟩ = some doc ∧ GoodCatalog py.repr itemType doc)
    (h : Reaches (Service.step py) ok (.init fs₀) w) : Served py fs₀ w := by
  exact (h.invariant (I := Inv py fs₀) ⟨⟨fun _ _ _ hdoc => hdoc, h0⟩, by rintro _ _ ⟨⟩, by rintro _ _ _ ⟨⟩,
    by rintro _ _ _ _ _ _ _ ⟨⟩⟩ fun _ _ _ hI _ hs => hI.step hs).toServed

end

/-- An interpreter of which no float and no `repr` is asked for. -/
def plainPython : Python where
  limits := ⟨8, 4300⟩
  float := .literals
  room := 8
  room_le := le_refl _
  cut _ := []
  repr _ := ""
  repr_saved _ := rfl

def emptyCatalog : Json := .obj [("itemListElement", .arr [])]

/-- Every file is an empty catalog. -/
def emptyFiles : Fs := targets.foldl (fun fs p => fs.set p ⟨plainPython.codec.text emptyCatalog, 0o644⟩) .empty

/-- A job is created; the process is killed while it is written, and the job is created again. -/
def createActs : List Act :=
  [.arrive 0 (.create "jobs" [("field__title", .text " Cook ")]), .lock 0, .call 0 .succeeds, .call 0 .succeeds,
    .call 0 (.mkstemp "x"), .call 0 (.reached 7), .restart,
    .arrive 0 (.create "jobs" [("field__title", .text " Cook ")]), .lock 0, .call 0 .succeeds, .call 0 .succeeds,
    .call 0 (.mkstemp "x"), .call 0 .succeeds, .call 0 .succeeds, .call 0 .succeeds, .call 0 .succeeds,
    .call 0 .succeeds]

theorem good_emptyFiles : ∀ k ∈ kinds, ∃ doc, docAt plainPython emptyFiles ⟨catalogDir, k.1 ++ ".json"⟩ = some doc ∧
    GoodCatalog plainPython.repr k.2 doc := by
  have hfile : ∀ k ∈ kinds, emptyFiles.get? ⟨catalogDir, k.1 ++ ".json"⟩ =
      some ⟨plainPython.codec.text emptyCatalog, 0o644⟩ := by decide +kernel
  intro k hk
  refine ⟨Json.saved plainPython.float emptyCatalog, ?_, goodCatalog_saved ⟨.items rfl, ?_⟩⟩
  · rw [docAt, hfile k hk, Option.bind_some, Python.load_text (by rfl)]
    rfl
  · exact fun v hv => absurd hv List.not_mem_nil

theorem served_of_reaches_create : ∃ w, Reaches (step plainPython) anyAct (.init emptyFiles) w ∧
    w.committed.length = 1 ∧ Served plainPython emptyFiles w := by
  obtain ⟨w, hr, hw⟩ := exists_reaches_of_run (step plainPython) anyAct (.init emptyFiles) createActs
    (fun w => decide (w.committed.length = 1)) (fun _ _ _ => trivial) (by decide +kernel)
  exact ⟨w, hr, of_decide_eq_true hw, served_of_reaches (fun _ _ hmem => good_emptyFiles _ hmem) hr⟩

end Service

end Catalog

end Embassy
