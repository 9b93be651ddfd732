import Embassy.Lib.Dict
import Embassy.PyJson

/-!
# The admin's catalog store (`admin/catalog_store.py`, `admin/schema_types.py`)

The edits of a decoded document, the catalog files, `_atomic_write` as the sequence of its system calls
(`step`), and `_cleanup_stale_temp_files`. An operation is killed by taking no further step.
-/

namespace Embassy
open Lib

namespace Catalog

/-- Exceptions of the store, as far as its callers tell them apart. -/
inductive StoreExc
  /-- `UnknownKind` -/
  | unknownKind
  | indexError
  /-- Any other exception. -/
  | other
  deriving DecidableEq, Repr

/-- The position that `items[index]` names in a list of that length. -/
def listIndex (index : ℤ) (length : ℕ) : Option ℕ :=
  if 0 ≤ index then if index.toNat < length then some index.toNat else none
  else if 0 ≤ index + length then some (index + length).toNat
  else none

/-- `doc.setdefault("itemListElement", [])`: the members after it, and the value. -/
def setdefaultItems : Json → Except StoreExc (List (String × Json) × Json)
  | .obj members =>
    match Json.get? members "itemListElement" with
    | some items => .ok (members, items)
    | none => .ok (members ++ [("itemListElement", .arr [])], .arr [])
  | _ => .error .other

/-- The document after the value of "itemListElement" changed in place. -/
def putItems (members : List (String × Json)) (items : Json) : Json :=
  .obj (members.map fun m => if m.1 = "itemListElement" then (m.1, items) else m)

/-- `list_items`, on the document. -/
def listItems : Json → Except StoreExc Json
  | .obj members => .ok ((Json.get? members "itemListElement").getD (.arr []))
  | _ => .error .other

/-- `get_item`, on the document. -/
def getItem (index : ℤ) (doc : Json) : Except StoreExc Json := do
  match ← listItems doc with
  | .arr elems =>
    match listIndex index elems.length with
    | some k => return elems.getD k .null
    | none => .error .indexError
  | .str s =>
    match listIndex index s.length with
    | some k => return .str (String.ofList [s.toList.getD k ' '])
    | none => .error .indexError
  -- a `dict` has no such key
  | _ => .error .other

/-- The edit of `add_item`. -/
def appendItem (item doc : Json) : Except StoreExc Json := do
  let (members, items) ← setdefaultItems doc
  match items with
  | .arr elems => return putItems members (.arr (elems ++ [item]))
  -- no `append`
  | _ => .error .other

/-- The edit of `update_item`. -/
def setItem (index : ℤ) (item doc : Json) : Except StoreExc Json := do
  let (members, items) ← setdefaultItems doc
  match items with
  | .arr elems =>
    match listIndex index elems.length with
    | some k => return putItems members (.arr (elems.set k item))
    | none => .error .indexError
  -- a `dict` takes the index as a new key
  | .obj entries => return putItems members (.obj (entries ++ [(toString index, item)]))
  | _ => .error .other

/-- The edit of `delete_item`. -/
def popItem (index : ℤ) (doc : Json) : Except StoreExc Json := do
  let (members, items) ← setdefaultItems doc
  match items with
  | .arr elems =>
    match listIndex index elems.length with
    | some k => return putItems members (.arr (elems.eraseIdx k))
    | none => .error .indexError
  -- a `dict` has no such key
  | _ => .error .other

/-- The document is a catalog: its items, if it has any, are a list. -/
inductive IsCatalog : Json → Prop
  | empty {members} : Json.get? members "itemListElement" = none → IsCatalog (.obj members)
  | items {members elems} : Json.get? members "itemListElement" = some (.arr elems) → IsCatalog (.obj members)

def entries : Json → List Json
  | .obj members =>
    match Json.get? members "itemListElement" with
    | some (.arr elems) => elems
    | _ => []
  | _ => []

section
variable {doc item : Json} {members : List (String × Json)} {elems : List Json} {k n : ℕ}

theorem get?_append_self {name : String} {v : Json} : Json.get? (members ++ [(name, v)]) name = some v := by
  simp [Json.get?]

theorem get?_putItems (items : Json) {v : Json} (h : Json.get? members "itemListElement" = some v) :
    ∃ members', putItems members items = .obj members' ∧
      Json.get? members' "itemListElement" = some items := by
  refine ⟨_, rfl, ?_⟩
  obtain ⟨m, hm, rfl⟩ := Option.map_eq_some_iff.1 h
  have hname : m.1 = "itemListElement" := by simpa using List.find?_some hm
  have hp : ((fun m : String × Json => decide (m.1 = "itemListElement")) ∘
      fun m => if m.1 = "itemListElement" then (m.1, items) else m) =
      fun m => decide (m.1 = "itemListElement") := by
    funext m
    by_cases hn : m.1 = "itemListElement" <;> simp [hn]
  rw [Json.get?, ← List.map_reverse, List.find?_map, hp, hm]
  simp [hname]

theorem isCatalog_putItems {v : Json} (h : Json.get? members "itemListElement" = some v) :
    IsCatalog (putItems members (.arr elems)) ∧ entries (putItems members (.arr elems)) = elems := by
  obtain ⟨members', heq, hget⟩ := get?_putItems (.arr elems) h
  rw [heq]
  exact ⟨.items hget, by simp [entries, hget]⟩

theorem setdefaultItems_eq (h : IsCatalog doc) : ∃ members v,
    setdefaultItems doc = .ok (members, .arr (entries doc)) ∧
      Json.get? members "itemListElement" = some v := by
  cases h with
  | @empty members hget =>
    exact ⟨members ++ [("itemListElement", .arr [])], .arr [], by simp [setdefaultItems, entries, hget],
      get?_append_self⟩
  | items hget => exact ⟨_, _, by simp [setdefaultItems, entries, hget], hget⟩

theorem listIndex_natCast : listIndex k n = if k < n then some k else none := by
  simp [listIndex]

theorem appendItem_eq (item : Json) (h : IsCatalog doc) : ∃ doc', appendItem item doc = .ok doc' ∧ IsCatalog doc' ∧
    entries doc' = entries doc ++ [item] := by
  obtain ⟨members, v, hset, hget⟩ := setdefaultItems_eq h
  exact ⟨_, by simp [appendItem, hset, Bind.bind, Except.bind, Pure.pure, Except.pure],
    isCatalog_putItems hget⟩

theorem setItem_of_lt (item : Json) (h : IsCatalog doc) (hk : k < (entries doc).length) : ∃ doc',
    setItem k item doc = .ok doc' ∧ IsCatalog doc' ∧ entries doc' = (entries doc).set k item := by
  obtain ⟨members, v, hset, hget⟩ := setdefaultItems_eq h
  exact ⟨_, by simp [setItem, hset, Bind.bind, Except.bind, Pure.pure, Except.pure, listIndex_natCast, hk],
    isCatalog_putItems hget⟩

theorem setItem_of_le (h : IsCatalog doc) (hk : (entries doc).length ≤ k) :
    setItem k item doc = .error .indexError := by
  obtain ⟨members, v, hset, hget⟩ := setdefaultItems_eq h
  simp [setItem, hset, Bind.bind, Except.bind, listIndex_natCast, not_lt.2 hk]

theorem popItem_of_lt (h : IsCatalog doc) (hk : k < (entries doc).length) : ∃ doc',
    popItem k doc = .ok doc' ∧ IsCatalog doc' ∧ entries doc' = (entries doc).eraseIdx k := by
  obtain ⟨members, v, hset, hget⟩ := setdefaultItems_eq h
  exact ⟨_, by simp [popItem, hset, Bind.bind, Except.bind, Pure.pure, Except.pure, listIndex_natCast, hk],
    isCatalog_putItems hget⟩

theorem popItem_of_le (h : IsCatalog doc) (hk : (entries doc).length ≤ k) :
    popItem k doc = .error .indexError := by
  obtain ⟨members, v, hset, hget⟩ := setdefaultItems_eq h
  simp [popItem, hset, Bind.bind, Except.bind, listIndex_natCast, not_lt.2 hk]

end

structure Path where
  parent : String
  name : String
  deriving DecidableEq, Repr

structure File where
  content : List UInt8
  mode : ℕ
  deriving DecidableEq, Repr

abbrev Fs := Dict Path File

def catalogDir : String := "static/catalog"

/-- `KINDS`, a kind with its `@type`. -/
def kinds : List (String × String) :=
  [("products", "Product"), ("services", "Service"), ("jobs", "JobPosting"), ("demand", "Demand")]

def manifestPath : Path := ⟨"static/.well-known", "agent-embassy.json"⟩

def files : List (String × Path) := kinds.map fun k => (k.1, ⟨catalogDir, k.1 ++ ".json"⟩)

def targets : List Path := files.map Prod.snd ++ [manifestPath]

def catalogPath (kind : String) : Except StoreExc Path :=
  match files.find? fun f => f.1 = kind with
  | some f => .ok f.2
  | none => .error .unknownKind

/-- What `json.load` makes of the bytes of a file; what `json.dump(doc, f, indent=2)` writes, and whether
it raises after that. -/
structure Codec where
  load : List UInt8 → Except PyExc Json
  dump : Json → List UInt8 × Option PyExc

/-! ### Operations -/

inductive Op
  /-- `add_item` -/
  | addItem (kind : String) (item : Json)
  /-- `update_item` -/
  | updateItem (kind : String) (index : ℤ) (item : Json)
  /-- `delete_item` -/
  | deleteItem (kind : String) (index : ℤ)
  /-- `update_manifest` -/
  | updateManifest (mutate : Json → Except StoreExc Json)

def Op.path : Op → Except StoreExc Path
  | addItem kind _ | updateItem kind _ _ | deleteItem kind _ => catalogPath kind
  | updateManifest _ => .ok manifestPath

def Op.mutate : Op → Json → Except StoreExc Json
  | addItem _ item => appendItem item
  | updateItem _ index item => setItem index item
  | deleteItem _ index => popItem index
  | updateManifest mutate => mutate

/-- Where an operation stands, with its local variables. -/
inductive Phase
  | start
  /-- `_read_json` returned. -/
  | loaded (path : Path) (doc : Json)
  /-- Before `mkstemp`. -/
  | mutated (path : Path) (doc : Json)
  /-- The temporary file is open, and nothing, a part or all of the text has reached it. -/
  | writing (path : Path) (doc : Json) (tmp : Path)
  /-- `f.flush()` returned. -/
  | flushed (path : Path) (doc : Json) (tmp : Path)
  /-- `os.fsync` returned. -/
  | synced (path : Path) (doc : Json) (tmp : Path)
  /-- The `with` block is left. -/
  | closed (path : Path) (doc : Json) (tmp : Path)
  /-- `os.chmod` returned. -/
  | readable (path : Path) (doc : Json) (tmp : Path)
  /-- In `except BaseException`. -/
  | failing (path : Path) (doc : Json) (tmp : Path)
  | returned (path : Path) (doc : Json)
  | raised
  /-- `os.unlink` raised. -/
  | unlinkRaised (path : Path) (doc : Json) (tmp : Path)

structure State where
  fs : Fs
  phase : Phase

inductive Event
  /-- The next call succeeds. -/
  | succeeds
  /-- The next call, or the write, raises. -/
  | raises
  /-- `mkstemp` succeeds with this random part. -/
  | mkstemp (random : String)
  /-- So many bytes of the text have reached the temporary file. -/
  | reached (n : ℕ)

/-- The name `mkstemp` gives a temporary file. -/
def tempPath (path : Path) (random : String) : Path :=
  ⟨path.parent, "." ++ path.name ++ "." ++ random ++ ".tmp"⟩

/-- What `json.dump` and `f.write("\n")` write. -/
def Codec.text (codec : Codec) (doc : Json) : List UInt8 :=
  match codec.dump doc with
  | (text, none) => text ++ [0x0A]
  | (text, some _) => text

/-- `os.chmod` -/
def chmod (fs : Fs) (path : Path) (mode : ℕ) : Option Fs :=
  (fs.get? path).map fun file => fs.set path { file with mode }

/-- `os.replace` -/
def replace (fs : Fs) (src dst : Path) : Option Fs :=
  (fs.get? src).map fun file => (fs.erase src).set dst file

section
variable (codec : Codec) (op : Op) (s : State)

/-- `_read_json(path)`, where `path` is the operation's. -/
def readJson : Option (Path × Json) :=
  match op.path with
  | .error _ => none
  | .ok path =>
    match s.fs.get? path with
    | none => none
    | some file =>
      match codec.load file.content with
      | .error _ => none
      | .ok doc => some (path, doc)

def State.goto (phase : Phase) : State := { s with phase }

/-- The temporary file is created, or more text reaches it. -/
def State.put (tmp : Path) (content : List UInt8) : State := { s with fs := s.fs.set tmp ⟨content, 0o600⟩ }

/-- One system call of the operation. -/
def step : Event → Option State
  | .succeeds =>
    match s.phase with
    | .start =>
      match readJson codec op s with
      | some (path, doc) => some (s.goto (.loaded path doc))
      | none => some (s.goto .raised)
    | .loaded path doc =>
      match op.mutate doc with
      | .ok doc => some (s.goto (.mutated path doc))
      | .error _ => some (s.goto .raised)
    | .writing path doc tmp =>
      match codec.dump doc with
      | (_, none) => some ((s.put tmp (codec.text doc)).goto (.flushed path doc tmp))
      | (_, some _) => some (s.goto (.failing path doc tmp))
    | .flushed path doc tmp => some (s.goto (.synced path doc tmp))
    | .synced path doc tmp => some (s.goto (.closed path doc tmp))
    | .closed path doc tmp =>
      match chmod s.fs tmp 0o644 with
      | some fs => some ⟨fs, .readable path doc tmp⟩
      | none => some (s.goto (.failing path doc tmp))
    | .readable path doc tmp =>
      match replace s.fs tmp path with
      | some fs => some ⟨fs, .returned path doc⟩
      | none => some (s.goto (.failing path doc tmp))
    | .failing _ _ tmp => some ⟨s.fs.erase tmp, .raised⟩
    | .mutated .. | .returned .. | .raised | .unlinkRaised .. => none
  | .raises =>
    match s.phase with
    | .start | .loaded .. | .mutated .. => some (s.goto .raised)
    | .writing path doc tmp | .flushed path doc tmp | .synced path doc tmp | .closed path doc tmp
    | .readable path doc tmp => some (s.goto (.failing path doc tmp))
    | .failing path doc tmp => some (s.goto (.unlinkRaised path doc tmp))
    | .returned .. | .raised | .unlinkRaised .. => none
  | .mkstemp random =>
    match s.phase with
    | .mutated path doc =>
      let tmp := tempPath path random
      -- `O_EXCL`: a name that is taken is not used
      if (s.fs.get? tmp).isSome then none
      else some ((s.put tmp []).goto (.writing path doc tmp))
    | _ => none
  | .reached n =>
    match s.phase with
    | .writing _ doc tmp => some (s.put tmp ((codec.text doc).take n))
    | _ => none

end

/-- `fnmatch` with the pattern `.*.tmp`. -/
def globTmp (name : String) : Bool :=
  match name.toList with
  | '.' :: rest => ".tmp".toList <:+ rest
  | _ => false

def dirs : List String := (targets.map Path.parent).eraseDups

/-- The sweep of one directory: every listed match is unlinked, which succeeds. -/
def sweepDir (fs : Fs) (d : String) : Fs :=
  (fs.keys.filter fun p => p.parent = d ∧ globTmp p.name).foldl Dict.erase fs

/-- `_cleanup_stale_temp_files` -/
def cleanup (fs : Fs) : Fs := dirs.foldl sweepDir fs

end Catalog

end Embassy
