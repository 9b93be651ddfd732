import Embassy.CatalogStore
import Embassy.Lib.Runs

/-!
# Catalog and manifest writes are all-or-nothing

What an operation leaves at every point (`AllOrNothing`): the old file or the complete new one, nothing
else if it raised, and after the sweep of the next start no temporary file. The sweep's pattern is wider
than the names `mkstemp` gives, so this is exactly the case where every file the pattern finds is named
like a temporary file (`allOrNothing_iff`).
-/

namespace Embassy
open Lib

namespace Catalog

/-- The path is named like a temporary file of a catalog file or of the manifest. -/
def TempName (p : Path) : Prop := ∃ target ∈ targets, ∃ middle, p = tempPath target middle

/-- The pattern finds it in one of the directories. -/
def Swept (p : Path) : Prop := p.parent ∈ dirs ∧ globTmp p.name = true

/-- Every file the pattern finds is named like a temporary file. -/
def OnlyTemps (fs : Fs) : Prop := ∀ p, (fs.get? p).isSome → Swept p → TempName p

section
variable (codec : Codec) (op : Op) (fs : Fs)

/-- The document of the operation's file, edited; it can be dumped. -/
structure Edited (path : Path) (doc : Json) : Prop where
  path_eq : op.path = .ok path
  edit : ∃ file old, fs.get? path = some file ∧ codec.load file.content = .ok old ∧ op.mutate old = .ok doc

def NewFile (path : Path) (file : File) : Prop :=
  ∃ doc text, Edited codec op fs path doc ∧ codec.dump doc = (text, none) ∧ file = ⟨text ++ [0x0A], 0o644⟩

/-- What is promised of the state `s` of an operation that started on the files `fs`. -/
structure AllOrNothing (s : State) : Prop where
  /-- The file is the old or the complete new one. -/
  whole : ∀ path, op.path = .ok path → s.fs.get? path = fs.get? path ∨
    ∃ file, s.fs.get? path = some file ∧ NewFile codec op fs path file
  /-- Where the operation raised, everything is as it was. -/
  raised : s.phase = .raised → ∀ p, s.fs.get? p = fs.get? p
  /-- Where the unlink failed, the temporary file is what is left. -/
  unlinkRaised : ∀ path doc tmp, s.phase = .unlinkRaised path doc tmp →
    TempName tmp ∧ ∀ p, p ≠ tmp → s.fs.get? p = fs.get? p
  /-- Where it returned, the new file is there, and nothing else changed. -/
  returned : ∀ path doc, s.phase = .returned path doc →
    (∃ file, s.fs.get? path = some file ∧ NewFile codec op fs path file ∧ file.mode = 0o644) ∧
      ∀ p, p ≠ path → s.fs.get? p = fs.get? p
  /-- The next start leaves no temporary file, -/
  swept : ∀ p, TempName p → (cleanup s.fs).get? p = none
  /-- every catalog file and the manifest, -/
  targets : ∀ p ∈ targets, (cleanup s.fs).get? p = s.fs.get? p
  /-- and every file not named like a temporary one. -/
  untouched : ∀ p, ¬ TempName p → (cleanup s.fs).get? p = s.fs.get? p

end

section
variable {codec : Codec} {op : Op} {fs : Fs} {s s' : State} {p path tmp : Path} {doc : Json}

theorem get?_foldl_erase (l : List Path) :
    (l.foldl Dict.erase fs).get? p = if p ∈ l then none else fs.get? p := by
  induction l generalizing fs with
  | nil => simp
  | cons q l ih =>
    rw [List.foldl_cons, ih, Dict.get?_erase]
    by_cases hq : p = q <;> by_cases hl : p ∈ l <;> simp [hq, hl]

theorem get?_sweepDir (d : String) :
    (sweepDir fs d).get? p = if p.parent = d ∧ globTmp p.name = true then none else fs.get? p := by
  rw [sweepDir, get?_foldl_erase]
  by_cases hp : p.parent = d ∧ globTmp p.name = true
  · by_cases hk : p ∈ fs.keys
    · simp [hk, hp]
    · simp [hk, Dict.get?_eq_none_iff.2 hk]
  · simp [hp]

theorem get?_foldl_sweepDir (ds : List String) :
    (ds.foldl sweepDir fs).get? p = if p.parent ∈ ds ∧ globTmp p.name = true then none else fs.get? p := by
  induction ds generalizing fs with
  | nil => simp
  | cons d ds ih =>
    rw [List.foldl_cons, ih, get?_sweepDir]
    by_cases hg : globTmp p.name = true <;> by_cases hd : p.parent = d <;> by_cases hds : p.parent ∈ ds <;>
      simp [hg, hd, hds]

theorem get?_cleanup_of_swept (h : Swept p) : (cleanup fs).get? p = none := by
  rw [cleanup, get?_foldl_sweepDir]
  exact if_pos h

theorem get?_cleanup_of_not_swept (h : ¬ Swept p) : (cleanup fs).get? p = fs.get? p := by
  rw [cleanup, get?_foldl_sweepDir]
  exact if_neg h

theorem globTmp_tempPath (target : Path) (middle : String) : globTmp (tempPath target middle).name = true := by
  simp only [tempPath, globTmp, String.toList_append]
  exact decide_eq_true ⟨target.name.toList ++ ".".toList ++ middle.toList, by simp⟩

theorem TempName.swept (h : TempName p) : Swept p := by
  obtain ⟨target, ht, middle, rfl⟩ := h
  refine ⟨?_, globTmp_tempPath target middle⟩
  rw [dirs, List.mem_eraseDups]
  exact List.mem_map.2 ⟨target, ht, rfl⟩

theorem not_swept_of_mem_targets (h : p ∈ targets) : ¬ Swept p := by
  have hnot : ∀ q ∈ targets, globTmp q.name = false := by decide
  exact fun hs => absurd hs.2 (by rw [hnot p h]; exact Bool.false_ne_true)

/-! ### The invariant -/

def Same (fs fs' : Fs) : Prop := ∀ p, fs'.get? p = fs.get? p

/-- The files are as they were and there is the temporary file, new. -/
structure Made (fs fs' : Fs) (path tmp : Path) (file : File) : Prop where
  temp : ∃ random, tmp = tempPath path random
  fresh : fs.get? tmp = none
  get? : ∀ p, fs'.get? p = if p = tmp then some file else fs.get? p

section
variable (codec op fs)

/-- What holds of each phase. -/
def Inv (s : State) : Prop :=
  match s.phase with
  | .start | .raised => Same fs s.fs
  | .loaded path doc => Same fs s.fs ∧ op.path = .ok path ∧
      ∃ file, fs.get? path = some file ∧ codec.load file.content = .ok doc
  | .mutated path doc => Same fs s.fs ∧ Edited codec op fs path doc
  | .writing path doc tmp | .failing path doc tmp | .unlinkRaised path doc tmp =>
      Edited codec op fs path doc ∧ ∃ file, Made fs s.fs path tmp file
  | .flushed path doc tmp | .synced path doc tmp | .closed path doc tmp =>
      Edited codec op fs path doc ∧ (codec.dump doc).2 = none ∧
        Made fs s.fs path tmp ⟨codec.text doc, 0o600⟩
  | .readable path doc tmp =>
      Edited codec op fs path doc ∧ (codec.dump doc).2 = none ∧
        Made fs s.fs path tmp ⟨codec.text doc, 0o644⟩
  | .returned path doc =>
      Edited codec op fs path doc ∧ (codec.dump doc).2 = none ∧
        ∀ p, s.fs.get? p = if p = path then some ⟨codec.text doc, 0o644⟩ else fs.get? p

end

theorem Made.put {file : File} (h : Made fs s.fs path tmp file) (content : List UInt8) :
    Made fs (s.put tmp content).fs path tmp ⟨content, 0o600⟩ := by
  refine ⟨h.temp, h.fresh, fun p => ?_⟩
  rw [State.put, Dict.get?_set, h.get? p]
  split <;> rfl

theorem Made.chmod {fs' fs'' : Fs} {file : File} {mode : ℕ} (h : Made fs fs' path tmp file)
    (hc : chmod fs' tmp mode = some fs'') : Made fs fs'' path tmp { file with mode } := by
  rw [Catalog.chmod, h.get? tmp, if_pos rfl, Option.map_some, Option.some.injEq] at hc
  subst hc
  refine ⟨h.temp, h.fresh, fun p => ?_⟩
  rw [Dict.get?_set, h.get? p]
  split <;> rfl

theorem Made.erase {fs' : Fs} {file : File} (h : Made fs fs' path tmp file) :
    Same fs (fs'.erase tmp) := by
  intro p
  rw [Dict.get?_erase, h.get? p]
  split
  · rename_i hp; rw [hp, h.fresh]
  · rfl

theorem Made.replace {fs' fs'' : Fs} {file : File} (h : Made fs fs' path tmp file)
    (hr : replace fs' tmp path = some fs'') :
    ∀ p, fs''.get? p = if p = path then some file else fs.get? p := by
  intro p
  rw [Catalog.replace, h.get? tmp, if_pos rfl, Option.map_some, Option.some.injEq] at hr
  rw [← hr, Dict.get?_set, h.erase p]

theorem mem_targets_of_path (h : op.path = .ok path) : path ∈ targets := by
  have hcat : ∀ kind, catalogPath kind = .ok path → path ∈ targets := by
    intro kind h
    unfold catalogPath at h
    split at h
    · rename_i f hf
      obtain rfl := Except.ok.inj h
      exact List.mem_append_left _ (List.mem_map.2 ⟨f, List.mem_of_find?_eq_some hf, rfl⟩)
    · cases h
  cases op with
  | addItem kind => exact hcat kind h
  | updateItem kind => exact hcat kind h
  | deleteItem kind => exact hcat kind h
  | updateManifest => obtain rfl := Except.ok.inj h; simp [targets]

theorem Made.tempName {fs' : Fs} {file : File} (h : Made fs fs' path tmp file)
    (hp : Edited codec op fs path doc) : TempName tmp := by
  obtain ⟨random, rfl⟩ := h.temp
  exact ⟨path, mem_targets_of_path hp.path_eq, random, rfl⟩

theorem readJson_eq_some (h : readJson codec op s = some (path, doc)) :
    op.path = .ok path ∧ ∃ file, s.fs.get? path = some file ∧ codec.load file.content = .ok doc := by
  unfold readJson at h
  split at h
  · cases h
  · rename_i path' hpath
    split at h
    · cases h
    · rename_i file hfile
      split at h
      · cases h
      · rename_i doc' hload
        cases h
        exact ⟨hpath, file, hfile, hload⟩

theorem inv_step {e : Event} (h : Inv codec op fs s) (hs : step codec op s e = some s') :
    Inv codec op fs s' := by
  obtain ⟨fs', phase⟩ := s
  cases e with
  | succeeds =>
    cases phase with
    | start =>
      simp only [Catalog.step] at hs
      split at hs <;> obtain rfl := Option.some.inj hs
      · rename_i path doc hread
        obtain ⟨hpath, file, hfile, hload⟩ := readJson_eq_some hread
        exact ⟨h, hpath, file, by rw [← h path]; exact hfile, hload⟩
      · exact h
    | loaded path old =>
      obtain ⟨hsame, hpath, file, hfile, hload⟩ := h
      simp only [Catalog.step] at hs
      split at hs <;> obtain rfl := Option.some.inj hs
      · rename_i doc hedit
        exact ⟨hsame, hpath, file, old, hfile, hload, hedit⟩
      · exact hsame
    | writing path doc tmp =>
      obtain ⟨hedited, file, hmade⟩ := h
      simp only [Catalog.step] at hs
      split at hs <;> obtain rfl := Option.some.inj hs
      · rename_i text hdump
        exact ⟨hedited, congrArg Prod.snd hdump, hmade.put _⟩
      · exact ⟨hedited, file, hmade⟩
    | flushed path doc tmp => obtain rfl := Option.some.inj hs; exact h
    | synced path doc tmp => obtain rfl := Option.some.inj hs; exact h
    | closed path doc tmp =>
      obtain ⟨hedited, hdump, hmade⟩ := h
      simp only [Catalog.step] at hs
      split at hs <;> obtain rfl := Option.some.inj hs
      · rename_i fs'' hchmod
        exact ⟨hedited, hdump, hmade.chmod hchmod⟩
      · exact ⟨hedited, _, hmade⟩
    | readable path doc tmp =>
      obtain ⟨hedited, hdump, hmade⟩ := h
      simp only [Catalog.step] at hs
      split at hs <;> obtain rfl := Option.some.inj hs
      · rename_i fs'' hreplace
        exact ⟨hedited, hdump, hmade.replace hreplace⟩
      · exact ⟨hedited, _, hmade⟩
    | failing path doc tmp =>
      obtain ⟨-, file, hmade⟩ := h
      obtain rfl := Option.some.inj hs
      exact hmade.erase
    | mutated => cases hs
    | returned => cases hs
    | raised => cases hs
    | unlinkRaised => cases hs
  | raises =>
    cases phase with
    | start => obtain rfl := Option.some.inj hs; exact h
    | loaded path doc => obtain rfl := Option.some.inj hs; exact h.1
    | mutated path doc => obtain rfl := Option.some.inj hs; exact h.1
    | writing path doc tmp => obtain rfl := Option.some.inj hs; exact h
    | flushed path doc tmp => obtain rfl := Option.some.inj hs; exact ⟨h.1, _, h.2.2⟩
    | synced path doc tmp => obtain rfl := Option.some.inj hs; exact ⟨h.1, _, h.2.2⟩
    | closed path doc tmp => obtain rfl := Option.some.inj hs; exact ⟨h.1, _, h.2.2⟩
    | readable path doc tmp => obtain rfl := Option.some.inj hs; exact ⟨h.1, _, h.2.2⟩
    | failing path doc tmp => obtain rfl := Option.some.inj hs; exact h
    | returned => cases hs
    | raised => cases hs
    | unlinkRaised => cases hs
  | mkstemp random =>
    cases phase with
    | mutated path doc =>
      obtain ⟨hsame, hedited⟩ := h
      simp only [Catalog.step] at hs
      split at hs
      · cases hs
      · rename_i hfree
        obtain rfl := Option.some.inj hs
        rw [Bool.not_eq_true, Option.isSome_eq_false_iff, Option.isNone_iff_eq_none] at hfree
        refine ⟨hedited, ⟨[], 0o600⟩, ⟨random, rfl⟩, ?_, fun p => ?_⟩
        · rw [← hsame]; exact hfree
        · rw [← hsame p]; exact Dict.get?_set _ _ _ _
    | _ => cases hs
  | reached n =>
    cases phase with
    | writing path doc tmp =>
      obtain ⟨hedited, file, hmade⟩ := h
      obtain rfl := Option.some.inj hs
      exact ⟨hedited, _, hmade.put _⟩
    | _ => cases hs

theorem Inv.of_reaches (h : Reaches (step codec op) anyAct ⟨fs, .start⟩ s) : Inv codec op fs s :=
  h.invariant (fun _ => rfl) fun _ _ _ hI _ hs => inv_step hI hs

/-! ### What it gives -/

theorem newFile_of_edited (hedited : Edited codec op fs path doc) (hdump : (codec.dump doc).2 = none) :
    NewFile codec op fs path ⟨codec.text doc, 0o644⟩ := by
  refine ⟨doc, (codec.dump doc).1, hedited, Prod.ext rfl hdump, ?_⟩
  rw [Codec.text]
  split <;> rename_i text hd
  · rw [hd]
  · rw [hd] at hdump; cases hdump

/-- What can have changed: a temporary file, or the operation's file. -/
theorem Inv.get? (h : Inv codec op fs s) (p : Path) :
    s.fs.get? p = fs.get? p ∨ (TempName p ∧ fs.get? p = none) ∨
      (∃ file, op.path = .ok p ∧ s.fs.get? p = some file ∧ NewFile codec op fs p file) := by
  have hmade : ∀ {path doc tmp file}, Edited codec op fs path doc → Made fs s.fs path tmp file →
      s.fs.get? p = fs.get? p ∨ (TempName p ∧ fs.get? p = none) ∨
        (∃ file, op.path = .ok p ∧ s.fs.get? p = some file ∧ NewFile codec op fs p file) := by
    intro path doc tmp file hedited hm
    by_cases hp : p = tmp
    · rw [hp]; exact .inr (.inl ⟨hm.tempName hedited, hm.fresh⟩)
    · left; rw [hm.get? p, if_neg hp]
  unfold Inv at h
  split at h
  · exact .inl (h p)
  · exact .inl (h p)
  · exact .inl (h.1 p)
  · exact .inl (h.1 p)
  · exact hmade h.1 h.2.choose_spec
  · exact hmade h.1 h.2.choose_spec
  · exact hmade h.1 h.2.choose_spec
  · exact hmade h.1 h.2.2
  · exact hmade h.1 h.2.2
  · exact hmade h.1 h.2.2
  · exact hmade h.1 h.2.2
  · rename_i path doc _
    obtain ⟨hedited, hdump, hget⟩ := h
    by_cases hp : p = path
    · refine .inr (.inr ⟨_, hp ▸ hedited.path_eq, by rw [hget p, if_pos hp], ?_⟩)
      exact hp ▸ newFile_of_edited hedited hdump
    · left; rw [hget p, if_neg hp]

theorem AllOrNothing.of_inv (h : Inv codec op fs s) (honly : OnlyTemps fs) :
    AllOrNothing codec op fs s where
  whole path hpath := by
    rcases h.get? path with hold | ⟨htemp, -⟩ | ⟨file, -, hnew⟩
    · exact .inl hold
    · exact absurd htemp.swept (not_swept_of_mem_targets (mem_targets_of_path hpath))
    · exact .inr ⟨file, hnew⟩
  raised hphase := by
    rw [Inv, hphase] at h
    exact h
  unlinkRaised path doc tmp hphase := by
    rw [Inv, hphase] at h
    obtain ⟨hedited, file, hmade⟩ := h
    exact ⟨hmade.tempName hedited, fun p hp => by rw [hmade.get? p, if_neg hp]⟩
  returned path doc hphase := by
    rw [Inv, hphase] at h
    obtain ⟨hedited, hdump, hget⟩ := h
    exact ⟨⟨_, by rw [hget path, if_pos rfl], newFile_of_edited hedited hdump, rfl⟩,
      fun p hp => by rw [hget p, if_neg hp]⟩
  swept p hp := get?_cleanup_of_swept hp.swept
  targets p hp := get?_cleanup_of_not_swept (not_swept_of_mem_targets hp)
  untouched p hp := by
    by_cases hs : Swept p
    · rw [get?_cleanup_of_swept hs]
      -- what the pattern finds here was not there before, and is no file of the operation
      rcases h.get? p with hold | ⟨htemp, -⟩ | ⟨file, hpath, -⟩
      · rw [hold, eq_comm, ← Option.not_isSome_iff_eq_none]
        exact fun hsome => hp (honly p hsome hs)
      · exact absurd htemp hp
      · exact absurd hs (not_swept_of_mem_targets (mem_targets_of_path hpath))
    · exact get?_cleanup_of_not_swept hs

end

/-- For every operation, all contents of the files, and at every point where it fails or is killed: the
write is all-or-nothing and the sweep takes the temporary files alone, if and only if the sweep's pattern
finds no file with another name. -/
theorem allOrNothing_iff (codec : Codec) (op : Op) (fs : Fs) :
    (∀ s, Reaches (step codec op) anyAct ⟨fs, .start⟩ s → AllOrNothing codec op fs s) ↔
      OnlyTemps fs := by
  constructor
  · intro h p hsome hs
    by_contra hp
    have huntouched := (h ⟨fs, .start⟩ .refl).untouched p hp
    rw [get?_cleanup_of_swept hs] at huntouched
    rw [← huntouched] at hsome
    cases hsome
  · exact fun honly s hs => .of_inv (.of_reaches hs) honly

theorem exists_returned {codec : Codec} {op : Op} {fs : Fs} {path : Path} {doc : Json} (random : String)
    (hedited : Edited codec op fs path doc) (hdump : (codec.dump doc).2 = none)
    (hfree : fs.get? (tempPath path random) = none) :
    ∃ s, Reaches (step codec op) anyAct ⟨fs, .start⟩ s ∧ s.phase = .returned path doc := by
  obtain ⟨hpath, file, old, hfile, hload, hmutate⟩ := hedited
  let tmp := tempPath path random
  let fs₁ : Fs := fs.set tmp ⟨[], 0o600⟩
  let fs₂ : Fs := fs₁.set tmp ⟨codec.text doc, 0o600⟩
  let fs₃ : Fs := fs₂.set tmp ⟨codec.text doc, 0o644⟩
  have hread : readJson codec op ⟨fs, .start⟩ = some (path, old) := by
    simp only [readJson, hpath, hfile, hload]
  have hedit : step codec op ⟨fs, .loaded path old⟩ .succeeds = some ⟨fs, .mutated path doc⟩ := by
    simp only [step, hmutate]
    rfl
  have hopen : step codec op ⟨fs, .mutated path doc⟩ (.mkstemp random) = some ⟨fs₁, .writing path doc tmp⟩ := by
    simp only [step, hfree, Option.isSome_none, Bool.false_eq_true, if_false]
    rfl
  have hwrite : step codec op ⟨fs₁, .writing path doc tmp⟩ .succeeds = some ⟨fs₂, .flushed path doc tmp⟩ := by
    obtain ⟨text, hd⟩ : ∃ text, codec.dump doc = (text, none) := ⟨_, Prod.ext rfl hdump⟩
    simp only [step, hd]
    rfl
  have hsync : step codec op ⟨fs₂, .flushed path doc tmp⟩ .succeeds = some ⟨fs₂, .synced path doc tmp⟩ := rfl
  have hclose : step codec op ⟨fs₂, .synced path doc tmp⟩ .succeeds = some ⟨fs₂, .closed path doc tmp⟩ := rfl
  have hchmod : step codec op ⟨fs₂, .closed path doc tmp⟩ .succeeds = some ⟨fs₃, .readable path doc tmp⟩ := by
    simp only [step, chmod, fs₂, Dict.get?_set, if_true, Option.map_some]
    rfl
  have hreplace : step codec op ⟨fs₃, .readable path doc tmp⟩ .succeeds =
      some ⟨(fs₃.erase tmp).set path ⟨codec.text doc, 0o644⟩, .returned path doc⟩ := by
    simp only [step, replace, fs₃, Dict.get?_set, if_true, Option.map_some]
  have hloaded : Reaches (step codec op) anyAct ⟨fs, .start⟩ ⟨fs, .loaded path old⟩ :=
    .single ⟨.succeeds, trivial, by simp only [step, hread]; rfl⟩
  have hflushed := ((hloaded.snoc trivial hedit).snoc trivial hopen).snoc trivial hwrite
  have hclosed := (hflushed.snoc trivial hsync).snoc trivial hclose
  exact ⟨_, (hclosed.snoc trivial hchmod).snoc trivial hreplace, rfl⟩

/-- An editor's file next to the catalog goes with the next start, whatever the admin was doing. -/
theorem not_allOrNothing : ¬ ∀ codec op fs s, Reaches (step codec op) anyAct ⟨fs, .start⟩ s →
    AllOrNothing codec op fs s := by
  intro h
  let notes : Path := ⟨catalogDir, ".notes.tmp"⟩
  let fs : Fs := Dict.empty.set notes ⟨[0x68, 0x69], 0o644⟩
  have hall := h ⟨fun _ => .error .jsonDecodeError, fun _ => ([], none)⟩ (.deleteItem "jobs" 0) fs _ .refl
  have hnot : ¬ TempName notes := by
    have hne : ∀ target ∈ targets, ¬ ("." ++ target.name).toList <+: ".notes.tmp".toList := by decide
    rintro ⟨target, ht, middle, heq⟩
    refine hne target ht ?_
    rw [show ".notes.tmp" = (tempPath target middle).name from congrArg Path.name heq]
    simp [tempPath]
  have huntouched := hall.untouched notes hnot
  rw [get?_cleanup_of_swept ⟨by decide, by decide⟩] at huntouched
  simp [fs] at huntouched

end Catalog

end Embassy
