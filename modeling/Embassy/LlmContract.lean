import Embassy.JsonFollows
import Embassy.RoutingAllowlist

/-!
# What the LLM may answer (`agent/llm.py`)

`_validate` against its contract, over the texts themselves: the answer is an object of one member, "channel", and
a channel of the list its value (`Contract`). The decoder forgets all but the last member of a name, so the
validator takes some more; and it raises where the decoder runs out of stack or of digits.
-/

namespace Embassy
open Json

namespace Agent

/-- `data[name]` of a dictionary, which has the last member of a name. -/
def docGet? (data : List (List ℕ × Doc)) (name : List ℕ) : Option Doc :=
  (data.reverse.find? fun m => m.1 = name).map Prod.snd

/-- `_validate`, on what `json.loads` makes of a text. -/
def validateText (limits : JsonLimits) (rawText : String) (allowedChannels : List String) :
    Except PyExc (Option String) :=
  match limits.loadsText (strip rawText) with
  | .error .jsonDecodeError => .ok none
  | .error e => .error e
  | .ok (.obj data) =>
    if data ≠ [] ∧ ∀ m ∈ data, m.1 = points "channel" then
      match docGet? data (points "channel") with
      | some (.str value) => .ok (allowedChannels.find? fun channel => value = points channel)
      | _ => .ok none
    else .ok none
  | .ok _ => .ok none

/-- The one member there is to be. -/
def channelMember (c : String) : List ℕ × Doc := (points "channel", .str (points c))

/-- Without its white space, the text is an object of this member and no other. -/
def Contract (raw c : String) : Prop := ∃ depth, Text 0 depth (.obj [channelMember c]) (strip raw).toList

/-- The validator does what the contract says of this text. -/
structure Exact (limits : JsonLimits) (raw : String) (allowed : List String) : Prop where
  accepts : ∀ c, validateText limits raw allowed = .ok (some c) ↔ Contract raw c ∧ c ∈ allowed
  rejects : (∀ c ∈ allowed, ¬ Contract raw c) → validateText limits raw allowed = .ok none

/-- A value in the text nests deeper than the stack, or is an integer with too many digits. -/
def Overruns (limits : JsonLimits) (raw : String) : Prop :=
  TextOver limits.maxDigits limits.depth (strip raw).toList

/-- The text is an object in which "channel" comes more than once, and with a channel of the list last. -/
def Repeats (limits : JsonLimits) (raw : String) (allowed : List String) : Prop :=
  ∃ members, ∃ c ∈ allowed,
    Text limits.maxDigits limits.depth (.obj (members ++ [channelMember c])) (strip raw).toList ∧ members ≠ [] ∧
      ∀ m ∈ members, m.1 = points "channel"

section
variable {limits : JsonLimits} {raw c : String} {allowed : List String} {maxDigits depth : ℕ} {v : Doc}
  {cs rest : List Char} {ps name : List ℕ}

theorem scalar_str_iff : Scalar maxDigits (.str ps) cs rest ↔
    ∃ us cs₁, ps = joinPairs us ∧ cs = quote :: cs₁ ∧ Chars us cs₁ rest := by
  constructor
  · intro h
    generalize hv : Doc.str ps = v at h
    cases h with
    | str h => exact ⟨_, _, Doc.str.inj hv, rfl, h⟩
    | @constant l _ _ =>
      have hne : ∀ a : Json, Doc.str ps ≠ docAtom a := by rintro (_ | _ | _ | _ | _ | _) ⟨⟩
      exact absurd hv (hne l.2)
    | num => cases hv
  · rintro ⟨us, cs₁, rfl, rfl, h⟩
    exact .str h

theorem scalar_ne_obj {ms : List (List ℕ × Doc)} (h : Scalar maxDigits v cs rest) : v ≠ .obj ms := by
  cases h with
  | @constant l _ _ =>
    have hne : ∀ a : Json, docAtom a ≠ .obj ms := by rintro (_ | _ | _ | _ | _ | _) ⟨⟩
    exact hne l.2
  | str | num => rintro ⟨⟩

theorem value_str_iff : Value maxDigits depth (.str ps) cs rest ↔
    ∃ us cs₁, ps = joinPairs us ∧ cs = quote :: cs₁ ∧ Chars us cs₁ rest := by
  rw [← @scalar_str_iff maxDigits]
  cases depth with
  | zero => exact .rfl
  | succ depth =>
    constructor
    · rintro (h | ⟨_, _, ⟨⟩, -⟩ | ⟨_, _, ⟨⟩, -⟩)
      exact h
    · exact .inl

theorem value_member (h : Value maxDigits depth (.obj [(name, .str ps)]) cs rest) :
    (∃ cs₁, cs = '{' :: cs₁) ∧ ∀ m d, Value m (d + 1) (.obj [(name, .str ps)]) cs rest := by
  cases depth with
  | zero => exact absurd rfl (scalar_ne_obj h)
  | succ depth =>
    rcases h with h | ⟨_, _, ⟨⟩, -⟩ | ⟨ms, cs₁, heq, rfl, hms⟩
    · exact absurd rfl (scalar_ne_obj h)
    obtain rfl := Doc.obj.inj heq
    refine ⟨⟨cs₁, rfl⟩, fun m d => .inr (.inr ⟨_, cs₁, rfl, rfl, ?_⟩)⟩
    rcases hms with ⟨hnil, -⟩ | hi
    · cases hnil
    · cases hi with
      | last hws hv hclose =>
        obtain ⟨cs₂, hkey, hv⟩ := hv
        exact .inr (.last hws ⟨cs₂, hkey, value_str_iff.mpr (value_str_iff.mp hv)⟩ hclose)
      | more _ _ _ h => cases h

theorem loadsText_of_contract (h : Contract raw c) (hover : ¬ Overruns limits raw) :
    limits.loadsText (strip raw) = .ok (.obj [channelMember c]) := by
  obtain ⟨depth, cs₁, rest, hws, hv, hrest⟩ := h
  obtain ⟨⟨cs₂, rfl⟩, hall⟩ := value_member hv
  obtain ⟨d, maxDigits⟩ := limits
  cases d with
  | zero => exact absurd ⟨_, hws, .inr ⟨cs₂, .inr rfl⟩⟩ hover
  | succ d => exact JsonLimits.loadsText_eq_ok.mpr ⟨_, rest, hws, hall maxDigits d, hrest⟩

theorem contract_of_loadsText (h : limits.loadsText (strip raw) = .ok (.obj [channelMember c])) : Contract raw c := by
  obtain ⟨cs₁, rest, hws, hv, hrest⟩ := JsonLimits.loadsText_eq_ok.mp h
  exact ⟨1, cs₁, rest, hws, (value_member hv).2 0 0, hrest⟩

theorem docGet?_append (members : List (List ℕ × Doc)) : docGet? (members ++ [(name, v)]) name = some v := by
  simp [docGet?]

theorem validateText_eq_some : validateText limits raw allowed = .ok (some c) ↔
    ∃ members, limits.loadsText (strip raw) = .ok (.obj (members ++ [channelMember c])) ∧
      (∀ m ∈ members, m.1 = points "channel") ∧ c ∈ allowed := by
  constructor
  · intro h
    unfold validateText at h
    cases hloads : limits.loadsText (strip raw) with
    | error e => rw [hloads] at h; cases e <;> cases h
    | ok v =>
      rw [hloads] at h
      cases v with
      | obj data =>
        dsimp only at h
        split_ifs at h with hnames
        · obtain ⟨members, m, rfl⟩ := data.eq_nil_or_concat'.resolve_left hnames.1
          obtain ⟨name, v⟩ := m
          obtain rfl : name = points "channel" := hnames.2 (name, v) (by simp)
          rw [docGet?_append] at h
          cases v with
          | str value =>
            have hfind := Except.ok.inj h
            obtain rfl : value = points c := by simpa using List.find?_some hfind
            exact ⟨members, rfl, fun m hm => hnames.2 m (List.mem_append_left _ hm), List.mem_of_find?_eq_some hfind⟩
          | _ => cases h
        · cases h
      | _ => cases h
  · rintro ⟨members, hloads, hnames, hmem⟩
    have hall : members ++ [channelMember c] ≠ [] ∧ ∀ m ∈ members ++ [channelMember c], m.1 = points "channel" := by
      refine ⟨by simp, fun m hm => ?_⟩
      rcases List.mem_append.mp hm with hm | hm
      · exact hnames m hm
      · obtain rfl := List.mem_singleton.mp hm
        rfl
    have hfind : allowed.find? (fun channel => points c = points channel) = some c := by
      simp only [points_injective.eq_iff]
      exact find?_self hmem
    have hget : docGet? (members ++ [channelMember c]) (points "channel") = some (.str (points c)) := docGet?_append members
    unfold validateText
    rw [hloads]
    dsimp only
    rw [if_pos hall, hget]
    exact congrArg Except.ok hfind

theorem validateText_error (allowed : List String) (hover : Overruns limits raw) : validateText limits raw allowed = .error .other := by
  unfold validateText
  rw [JsonLimits.loadsText_of_textOver hover]

theorem validateText_ok (allowed : List String) (hover : ¬ Overruns limits raw) : ∃ channel, validateText limits raw allowed = .ok channel := by
  unfold validateText
  cases hloads : limits.loadsText (strip raw) with
  | error e =>
    rcases JsonLimits.loadsText_error hloads with rfl | ⟨-, h⟩
    · exact ⟨none, rfl⟩
    · exact absurd h hover
  | ok v =>
    cases v with
    | obj data =>
      dsimp only
      split_ifs
      · split <;> exact ⟨_, rfl⟩
      · exact ⟨none, rfl⟩
    | _ => exact ⟨none, rfl⟩

theorem exact_of (hover : ¬ Overruns limits raw) (hrepeats : ¬ Repeats limits raw allowed) : Exact limits raw allowed := by
  have haccepts : ∀ c, validateText limits raw allowed = .ok (some c) ↔ Contract raw c ∧ c ∈ allowed := by
    intro c
    rw [validateText_eq_some]
    constructor
    · rintro ⟨members, hloads, hnames, hmem⟩
      rcases members.eq_nil_or_concat' with rfl | ⟨_, _, rfl⟩
      · exact ⟨contract_of_loadsText hloads, hmem⟩
      · exact absurd ⟨_, c, hmem, JsonLimits.loadsText_eq_ok.mp hloads, by simp, hnames⟩ hrepeats
    · rintro ⟨hc, hmem⟩
      exact ⟨[], loadsText_of_contract hc hover, List.forall_mem_nil _, hmem⟩
  refine ⟨haccepts, fun hnone => ?_⟩
  obtain ⟨channel, hok⟩ := validateText_ok allowed hover
  cases channel with
  | none => exact hok
  | some c =>
    obtain ⟨hc, hmem⟩ := (haccepts c).mp hok
    exact absurd hc (hnone c hmem)

theorem not_overruns_of_exact (h : Exact limits raw allowed) : ¬ Overruns limits raw := by
  intro hover
  have herr := validateText_error allowed hover
  by_cases hc : ∃ c ∈ allowed, Contract raw c
  · obtain ⟨c, hmem, hc⟩ := hc
    cases herr.symm.trans ((h.accepts c).mpr ⟨hc, hmem⟩)
  · cases herr.symm.trans (h.rejects fun c hmem hcontract => hc ⟨c, hmem, hcontract⟩)

theorem not_repeats_of_exact (h : Exact limits raw allowed) : ¬ Repeats limits raw allowed := by
  rintro ⟨members, c, hmem, htext, hne, hnames⟩
  have hloads := JsonLimits.loadsText_eq_ok.mpr htext
  obtain ⟨hc, -⟩ := (h.accepts c).mp (validateText_eq_some.mpr ⟨members, hloads, hnames, hmem⟩)
  have hone := loadsText_of_contract hc (not_overruns_of_exact h)
  have hdata := Doc.obj.inj (Except.ok.inj (hloads.symm.trans hone))
  exact hne (List.append_left_eq_self.mp hdata)

end

/-- The validator keeps the contract but where "channel" is repeated, and where the decoder overruns. -/
theorem validateText_exact_iff (limits : JsonLimits) (raw : String) (allowed : List String) :
    Exact limits raw allowed ↔ ¬ Overruns limits raw ∧ ¬ Repeats limits raw allowed :=
  ⟨fun h => ⟨not_overruns_of_exact h, not_repeats_of_exact h⟩, fun h => exact_of h.1 h.2⟩

/-- `{"channel":5,"channel":"a"}` -/
def repeatedText : List Char :=
  let channel : List Char := quote :: 'c' :: 'h' :: 'a' :: 'n' :: 'n' :: 'e' :: 'l' :: quote :: [':']
  '{' :: (channel ++ '5' :: ',' :: (channel ++ [quote, 'a', quote, '}']))

theorem not_validateText_exact : ¬ ∀ limits raw allowed, Exact limits raw allowed := by
  intro h
  let limits : JsonLimits := ⟨1, 4300⟩
  have hstrip : strip (String.ofList repeatedText) = String.ofList repeatedText := by
    refine strip_eq_self fun c hc => ?_
    rw [String.toList_ofList] at hc
    exact Bool.not_eq_true' _ ▸ List.all_eq_true.mp (by decide +kernel : repeatedText.all fun c => !isSpace c) c hc
  have hscan : scanDoc 4300 1 repeatedText =
      .ok (.obj ([(['c', 'h', 'a', 'n', 'n', 'e', 'l'].map Char.toNat, .num (String.ofList ['5']))] ++
        [(['c', 'h', 'a', 'n', 'n', 'e', 'l'].map Char.toNat, .str (['a'].map Char.toNat))]), []) := rfl
  have hchannel : points "channel" = ['c', 'h', 'a', 'n', 'n', 'e', 'l'].map Char.toNat := by simp [points]
  have ha : points "a" = ['a'].map Char.toNat := by simp [points]
  have hloads : limits.loadsText (strip (String.ofList repeatedText)) =
      .ok (.obj ([(points "channel", .num (String.ofList ['5']))] ++ [channelMember "a"])) := by
    rw [hstrip, JsonLimits.loadsText, String.toList_ofList, channelMember, hchannel, ha]
    exact congrArg (fun x => x >>= _) hscan
  refine not_repeats_of_exact (h limits (String.ofList repeatedText) ["a"]) ⟨_, "a", List.mem_singleton_self _,
    JsonLimits.loadsText_eq_ok.mp hloads, List.cons_ne_nil _ _, fun m hm => ?_⟩
  obtain rfl := List.mem_singleton.mp hm
  rfl

theorem overruns_brackets (limits : JsonLimits) :
    Overruns limits (String.ofList (List.replicate (limits.depth + 1) '[')) := by
  have hstrip : ∀ n, strip (String.ofList (List.replicate n '[')) = String.ofList (List.replicate n '[') := by
    intro n
    refine strip_eq_self fun c hc => ?_
    rw [String.toList_ofList] at hc
    rw [List.eq_of_mem_replicate hc]
    rfl
  have hover : ∀ depth, Over limits.maxDigits depth (List.replicate (depth + 1) '[') := by
    intro depth
    induction depth with
    | zero => exact .inr ⟨[], .inl rfl⟩
    | succ depth ih => exact .inr (.inl ⟨_, rfl, .here (.refl _) ih⟩)
  rw [Overruns, hstrip, String.toList_ofList]
  exact ⟨_, .refl _, hover _⟩

/-! ### Against the validator of `Routing` -/

/-- Code points that there are. -/
def Valid (ps : List ℕ) : Prop := ∀ n ∈ ps, n < 0x110000

section
variable {ps us : List ℕ} {cs rest : List Char} {maxDigits depth : ℕ} {v : Doc}

theorem hexVal_lt {c : Char} {d : ℕ} (h : hexVal c = some d) : d < 16 := by
  have hle : ∀ {c : Char} (d : Char), c ≤ d → c.toNat ≤ d.toNat := fun _ h => UInt32.le_iff_toNat_le.mp h
  unfold hexVal at h
  split_ifs at h with h9 hf hF <;> obtain rfl := Option.some.inj h
  · have := hle '9' h9.2
    have : ('9' : Char).toNat = 0x39 := rfl
    omega
  · have := hle 'f' hf.2
    have : ('f' : Char).toNat = 0x66 := rfl
    omega
  · have := hle 'F' hF.2
    have : ('F' : Char).toNat = 0x46 := rfl
    omega

theorem hexUnit_lt {h₁ h₂ h₃ h₄ : Char} {n : ℕ} (h : hexUnit h₁ h₂ h₃ h₄ = some n) : n < 0x10000 := by
  obtain ⟨a, ha, h⟩ := Option.bind_eq_some_iff.mp h
  obtain ⟨b, hb, h⟩ := Option.bind_eq_some_iff.mp h
  obtain ⟨c, hc, h⟩ := Option.bind_eq_some_iff.mp h
  obtain ⟨d, hd, h⟩ := Option.bind_eq_some_iff.mp h
  have := hexVal_lt ha
  have := hexVal_lt hb
  have := hexVal_lt hc
  have := hexVal_lt hd
  obtain rfl := Option.some.inj h
  omega

theorem unescape_lt {c : Char} {n : ℕ} (h : unescape c = some n) : n < 0x110000 := by
  have hc := toNat_of_lt_surrogates c
  unfold unescape at h
  split_ifs at h <;> obtain rfl := Option.some.inj h <;> omega

theorem valid_chars (h : Chars us cs rest) : Valid us := by
  induction h with
  | close => exact List.forall_mem_nil _
  | @plain c _ _ _ _ _ _ _ ih =>
    have hc := toNat_of_lt_surrogates c
    exact List.forall_mem_cons.mpr ⟨by omega, ih⟩
  | escape he _ ih => exact List.forall_mem_cons.mpr ⟨unescape_lt he, ih⟩
  | unicode hn _ ih => exact List.forall_mem_cons.mpr ⟨(hexUnit_lt hn).trans (by decide), ih⟩

theorem Valid.joinPairs (h : Valid us) : Valid (joinPairs us) := by
  fun_induction Json.joinPairs us with
  | case1 => exact h
  | case2 => exact h
  | case3 hi lo rest hpair ih =>
    obtain ⟨hhi, hlo⟩ := hpair
    simp only [isHigh, isLow, decide_eq_true_eq] at hhi hlo
    have hrest : Valid rest := fun n hn => h n (by simp [hn])
    exact List.forall_mem_cons.mpr ⟨by omega, ih hrest⟩
  | case4 hi lo rest _ ih =>
    obtain ⟨hhi, hrest⟩ := List.forall_mem_cons.mp h
    exact List.forall_mem_cons.mpr ⟨hhi, ih hrest⟩

theorem ofPoints_points (s : String) : ofPoints (points s) = s := by
  rw [ofPoints, points, List.map_map, show codeChar ∘ Char.toNat = id from funext codeChar_toNat, List.map_id,
    String.ofList_toList]

theorem ofPoints_eq_iff {s : String} (hps : Valid ps) (hs : Char.ofNat 0xFFFD ∉ s.toList) : ofPoints ps = s ↔ ps = points s := by
  constructor
  · rintro rfl
    rw [ofPoints, String.toList_ofList] at hs
    rw [ofPoints, points, String.toList_ofList, List.map_map]
    refine (List.map_id ps).symm.trans (List.map_congr_left fun n hn => ?_)
    have hne : codeChar n ≠ Char.ofNat 0xFFFD := fun heq => hs (heq ▸ List.mem_map_of_mem hn)
    have hno : ¬ (isHigh n = true ∨ isLow n = true) := fun h => hne (if_pos h)
    have hvalid : n.isValidChar := by
      have hlt := hps n hn
      simp only [isHigh, isLow, decide_eq_true_eq] at hno
      unfold Nat.isValidChar
      omega
    rw [Function.comp_apply, codeChar, if_neg hno, Char.toNat_ofNat, if_pos hvalid]
    rfl
  · rintro rfl
    exact ofPoints_points s

theorem exists_reads_of_items {α : Type} {R : Reads α} {close : Char} {vs : List α} (h : Items R close vs cs rest) :
    ∀ v ∈ vs, ∃ cs₁ cs₂, R v cs₁ cs₂ := by
  induction h with
  | last _ hv _ => exact List.forall_mem_singleton.mpr ⟨_, _, hv⟩
  | more _ hv _ _ ih => exact List.forall_mem_cons.mpr ⟨⟨_, _, hv⟩, ih⟩

theorem valid_of_value {data : List (List ℕ × Doc)} (h : Value maxDigits depth (.obj data) cs rest) :
    ∀ m ∈ data, Valid m.1 ∧ ∀ ps, m.2 = .str ps → Valid ps := by
  cases depth with
  | zero => exact absurd rfl (scalar_ne_obj h)
  | succ depth =>
    rcases h with h | ⟨_, _, ⟨⟩, -⟩ | ⟨ms, cs₁, heq, -, hms⟩
    · exact absurd rfl (scalar_ne_obj h)
    obtain rfl := Doc.obj.inj heq
    rcases hms with ⟨rfl, -⟩ | hi
    · exact List.forall_mem_nil _
    intro m hm
    obtain ⟨cs₁, cs₂, cs₃, hkey, hv⟩ := exists_reads_of_items hi m hm
    obtain ⟨us, _, _, _, hname, -, hchars, -⟩ := hkey
    constructor
    · rw [hname]
      exact (valid_chars hchars).joinPairs
    · intro ps hps
      rw [hps] at hv
      obtain ⟨us, _, rfl, -, hchars⟩ := value_str_iff.mp hv
      exact (valid_chars hchars).joinPairs

/-- Where no channel has U+FFFD in its name, it does not matter what else the decoder of `Routing` reads as it. -/
theorem validate_eq_validateText {llm : Llm} {limits : JsonLimits} {raw : String} {allowed : List String}
    (hloads : ∀ text, llm.loadsText text = (limits.loadsText text).map toJson)
    (hallowed : ∀ c ∈ allowed, Char.ofNat 0xFFFD ∉ c.toList) :
    llm.validate raw allowed = validateText limits raw allowed := by
  unfold Llm.validate validateText
  rw [hloads]
  cases hdoc : limits.loadsText (strip raw) with
  | error e => cases e <;> rfl
  | ok v =>
    cases v with
    | obj data =>
      obtain ⟨_, _, -, hvalue, -⟩ := JsonLimits.loadsText_eq_ok.mp hdoc
      have hvalid := valid_of_value hvalue
      have hchannel : Char.ofNat 0xFFFD ∉ "channel".toList := by simp
      have hname : ∀ m ∈ data, ((toMember m).1 = "channel" ↔ m.1 = points "channel") := fun m hm =>
        ofPoints_eq_iff (hvalid m hm).1 hchannel
      have hif : (data.map toMember ≠ [] ∧ ∀ m ∈ data.map toMember, m.1 = "channel") ↔
          data ≠ [] ∧ ∀ m ∈ data, m.1 = points "channel" := by
        rw [List.forall_mem_map, ne_eq, ne_eq, List.map_eq_nil_iff]
        exact and_congr Iff.rfl (forall₂_congr hname)
      simp only [Except.map, toJson, toMembers_eq, hif]
      split_ifs with hnames
      · obtain ⟨members, m, rfl⟩ := data.eq_nil_or_concat'.resolve_left hnames.1
        obtain ⟨name, v⟩ := m
        obtain rfl : name = points "channel" := hnames.2 (name, v) (by simp)
        have hget : Json.get? ((members ++ [(points "channel", v)]).map toMember) "channel" = some (toJson v) := by
          simp [Json.get?, toMember, ofPoints_points]
        rw [docGet?_append, hget]
        cases v with
        | str value =>
          have hvalue := (hvalid (points "channel", .str value) (by simp)).2 value rfl
          have hfind : allowed.find? (fun channel => ofPoints value = channel) =
              allowed.find? fun channel => value = points channel :=
            List.find?_congr fun channel hc => decide_eq_decide.mpr (ofPoints_eq_iff hvalue (hallowed channel hc))
          exact congrArg Except.ok hfind
        | _ => rfl
      · rfl
    | _ => rfl

end

end Agent

end Embassy
