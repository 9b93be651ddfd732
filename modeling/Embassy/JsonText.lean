import Embassy.JsonLoads

/-!
# `json.loads` of a text, exactly

The decoder of `JsonLoads` on a `str`, with its values as Python has them: a string is its code points, a lone
surrogate among them, and an object the list of its members as written. `scanOnce_eq` says that the other
decoder reads the same values, with U+FFFD for the lone surrogates.
-/

namespace Embassy

/-- A decoded value; a number keeps its text. -/
inductive Doc
  | null
  | bool (b : Bool)
  | num (text : String)
  | str (points : List ℕ)
  | arr (elems : List Doc)
  | obj (members : List (List ℕ × Doc))

namespace Json

def points (s : String) : List ℕ := s.toList.map Char.toNat

theorem points_injective : Function.Injective points := fun _ _ h =>
  String.toList_inj.mp (List.map_injective_iff.mpr (fun _ _ hc => Char.ext (UInt32.toNat_inj.mp hc)) h)

/-- Pairs of surrogates are one code point each. -/
def joinPairs : List ℕ → List ℕ
  | [] => []
  | [n] => [n]
  | hi :: lo :: rest =>
    if isHigh hi ∧ isLow lo then (0x10000 + (hi - 0xD800) * 0x400 + (lo - 0xDC00)) :: joinPairs rest
    else hi :: joinPairs (lo :: rest)

/-- A string literal, after its opening quote. -/
def scanPoints : Scan (List ℕ) := fun cs => (scanString cs).map fun r => (joinPairs r.1, r.2)

/-- What `scanAtom` reads. -/
def docAtom : Json → Doc
  | .bool b => .bool b
  | .num text => .num text
  | _ => .null

def docKey : Scan (List ℕ) := fun cs =>
  match cs with
  | c :: rest =>
    if c = quote then do
      let (key, rest) ← scanPoints rest
      match skipWs rest with
      | c :: rest => if c = ':' then return (key, skipWs rest) else throw .jsonDecodeError
      | [] => throw .jsonDecodeError
    else .error .jsonDecodeError
  | [] => .error .jsonDecodeError

def docMember (scan : Scan Doc) : Scan (List ℕ × Doc) := fun cs => do
  let (key, rest) ← docKey cs
  let (v, rest) ← scan rest
  return ((key, v), rest)

/-- `scan_once`, with the scanner of nested values if the stack has room for one. -/
def docValue (maxDigits : ℕ) (nested : Option (Scan Doc)) : Scan Doc := fun cs =>
  match cs with
  | [] => .error .jsonDecodeError
  | c :: rest =>
    if c = quote then (scanPoints rest).map fun r => (.str r.1, r.2)
    else if c = '[' ∨ c = '{' then
      match nested with
      -- `RecursionError`
      | none => .error .other
      | some scan =>
        if c = '[' then (container scan ']' rest).map fun r => (.arr r.1, r.2)
        else (container (docMember scan) '}' rest).map fun r => (.obj r.1, r.2)
    else (scanAtom maxDigits cs).map fun r => (docAtom r.1, r.2)

/-- `scan_once` with `depth` frames left. -/
def scanDoc (maxDigits : ℕ) : ℕ → Scan Doc
  | 0 => docValue maxDigits none
  | depth + 1 => docValue maxDigits (some (scanDoc maxDigits depth))

/-! ### Against the other decoder -/

/-- The code points as `JsonLoads` has them. -/
def ofPoints (ps : List ℕ) : String := String.ofList (ps.map codeChar)

mutual

def toJson : Doc → Json
  | .null => .null
  | .bool b => .bool b
  | .num text => .num text
  | .str ps => .str (ofPoints ps)
  | .arr vs => .arr (toJsons vs)
  | .obj ms => .obj (toMembers ms)

def toJsons : List Doc → List Json
  | [] => []
  | v :: vs => toJson v :: toJsons vs

def toMembers : List (List ℕ × Doc) → List (String × Json)
  | [] => []
  | (name, v) :: ms => (ofPoints name, toJson v) :: toMembers ms

end

def toMember (m : List ℕ × Doc) : String × Json := (ofPoints m.1, toJson m.2)

@[simp] theorem toJsons_eq (vs : List Doc) : toJsons vs = vs.map toJson := by
  induction vs with
  | nil => rfl
  | cons v vs ih => rw [toJsons, ih, List.map_cons]

@[simp] theorem toMembers_eq (ms : List (List ℕ × Doc)) : toMembers ms = ms.map toMember := by
  induction ms with
  | nil => rfl
  | cons m ms ih => rw [toMembers, ih, List.map_cons, toMember]

theorem joinSurrogates_eq (ns : List ℕ) : joinSurrogates ns = (joinPairs ns).map codeChar := by
  fun_induction joinPairs ns with
  | case1 => rfl
  | case2 => rfl
  | case3 hi lo rest h ih => rw [joinSurrogates, if_pos h, ih, List.map_cons]
  | case4 hi lo rest h ih => rw [joinSurrogates, if_neg h, ih, List.map_cons]

/-- One scanner reads the image of what the other reads. -/
def Agrees {α β : Type} (f : α → β) (scan : Scan α) (scan' : Scan β) : Prop :=
  ∀ cs, scan' cs = (scan cs).map fun r => (f r.1, r.2)

section
variable {α β : Type} {f : α → β} {item : Scan α} {item' : Scan β} {close : Char}

theorem agrees_itemsLoop (h : Agrees f item item') (n : ℕ) :
    Agrees (List.map f) (itemsLoop item close n) (itemsLoop item' close n) := by
  induction n with
  | zero => exact fun _ => rfl
  | succ n ih =>
    intro cs
    rw [itemsLoop, itemsLoop, h cs]
    cases item cs with
    | error e => rfl
    | ok r =>
      simp only [Except.map, bind, Except.bind]
      cases hsep : skipWs r.2 with
      | nil => rfl
      | cons c rest =>
        dsimp only
        split_ifs
        · rfl
        · rw [ih]
          cases itemsLoop item close n (skipWs rest) <;> rfl
        · rfl

theorem agrees_container (h : Agrees f item item') :
    Agrees (List.map f) (container item close) (container item' close) := by
  intro cs
  unfold container
  cases skipWs cs with
  | nil => rfl
  | cons c rest =>
    dsimp only
    split_ifs
    · rfl
    · exact agrees_itemsLoop h _ _

end

theorem agrees_scanText : Agrees ofPoints scanPoints scanText := by
  intro cs
  rw [scanText, scanPoints]
  cases scanString cs with
  | error e => rfl
  | ok r => simp only [Except.map, joinSurrogates_eq, ofPoints]

theorem agrees_scanKey : Agrees ofPoints docKey scanKey := by
  intro cs
  cases cs with
  | nil => rfl
  | cons c rest =>
    rw [scanKey, docKey, agrees_scanText rest]
    split_ifs
    · cases scanPoints rest with
      | error e => rfl
      | ok r =>
        simp only [Except.map, bind, Except.bind]
        cases skipWs r.2 with
        | nil => rfl
        | cons c rest =>
          dsimp only
          split_ifs with hc
          · subst hc
            rfl
          · split
            · rename_i heq
              exact absurd (List.cons.inj heq).1 hc
            · rfl
    · rfl

theorem agrees_scanMember {scan : Scan Doc} {scan' : Scan Json} (h : Agrees toJson scan scan') :
    Agrees toMember (docMember scan) (scanMember scan') := by
  intro cs
  rw [scanMember, docMember, agrees_scanKey cs]
  cases docKey cs with
  | error e => rfl
  | ok r =>
    simp only [Except.map, bind, Except.bind, h r.2]
    cases scan r.2 <;> rfl

/-- `scanAtom` reads constants and numbers only. -/
theorem agrees_scanAtom (maxDigits : ℕ) :
    Agrees toJson (fun cs => (scanAtom maxDigits cs).map fun r => (docAtom r.1, r.2)) (scanAtom maxDigits) := by
  have hliterals : ∀ l ∈ literals, toJson (docAtom l.2) = l.2 := by simp [literals, docAtom, toJson]
  have hread : ∀ cs r, scanAtom maxDigits cs = .ok r → toJson (docAtom r.1) = r.1 := by
    intro cs r hr
    unfold scanAtom scanNumber at hr
    dsimp only at hr
    split at hr
    · rename_i l v hfind
      obtain rfl := Except.ok.inj hr
      exact hliterals _ (List.mem_of_find?_eq_some hfind)
    · split at hr
      · cases hr
      · split_ifs at hr
        obtain rfl := Except.ok.inj hr
        rfl
  intro cs
  dsimp only
  cases hr : scanAtom maxDigits cs with
  | error e => rfl
  | ok r =>
    dsimp only [Except.map]
    rw [hread cs r hr]

theorem agrees_scanValue {maxDigits : ℕ} {nested : Option (Scan Doc)} {nested' : Option (Scan Json)}
    (h : Option.Rel (Agrees toJson) nested nested') :
    Agrees toJson (docValue maxDigits nested) (scanValue maxDigits nested') := by
  intro cs
  cases cs with
  | nil => rfl
  | cons c rest =>
    unfold scanValue docValue
    dsimp only
    split_ifs
    · rw [agrees_scanText rest]
      cases scanPoints rest <;> rfl
    · cases h with
      | none => rfl
      | some h =>
        dsimp only
        rw [scanArray, agrees_container h rest]
        cases container _ ']' rest <;> simp [Except.map, toJson]
    · cases h with
      | none => rfl
      | some h =>
        dsimp only
        rw [scanObject, agrees_container (agrees_scanMember h) rest]
        cases container _ '}' rest <;> simp [Except.map, toJson]
    · exact agrees_scanAtom maxDigits (c :: rest)

theorem agrees_scanOnce (maxDigits depth : ℕ) : Agrees toJson (scanDoc maxDigits depth) (scanOnce maxDigits depth) := by
  induction depth with
  | zero => exact agrees_scanValue .none
  | succ depth ih => exact agrees_scanValue (.some ih)

end Json

/-- `json.loads` of a text. -/
def JsonLimits.loadsText (limits : JsonLimits) (text : String) : Except PyExc Doc := do
  let (v, rest) ← Json.scanDoc limits.maxDigits limits.depth (Json.skipWs text.toList)
  if Json.skipWs rest = [] then return v else throw .jsonDecodeError

theorem JsonLimits.loads_eq (limits : JsonLimits) (body : List UInt8) :
    limits.loads body = match Json.decodeBody body with
      | none => .error .unicodeDecodeError
      | some text => (limits.loadsText (String.ofList text)).map Json.toJson := by
  rw [JsonLimits.loads]
  cases Json.decodeBody body with
  | none => rfl
  | some text =>
    dsimp only
    rw [JsonLimits.loadsText, String.toList_ofList, Json.agrees_scanOnce]
    cases Json.scanDoc limits.maxDigits limits.depth (Json.skipWs text) with
    | error e => rfl
    | ok r =>
      simp only [Except.map, bind, Except.bind]
      split_ifs
      · rfl
      · rfl

end Embassy
