import Upkeep.Proofs.Files.AtomicWrite

/-!
# Writes that are all or nothing

Whoever looks at the files after a write is to find the new content, or nothing of the write at all. The
directories on the way are made first, and that touches no file. The temporary file is another matter: a file
that has its name is lost, and when the last step fails it is left behind. Nothing else ever happens to any
other file.

* `FileTree.SameFiles`: two trees with the same files.
* `Files.Comes`: **what a write can come to**.
* `Files.write_allOrNothing_iff`: **when a write is all or nothing**; the other files are spared in any case.
* `Files.crowded_not_allOrNothing`: a file that is lost, and one that is left behind.
-/

namespace Upkeep

namespace FileTree

variable {t t' t'' : FileTree} {p : String} {place : List String} {c : Bytes}

/-- The content of the file at a place. -/
def file? (t : FileTree) (place : List String) : Option Bytes :=
  match t.entry? place with
  | some (.file c) => some c
  | _ => none

/-- All files are as they were, and there are no others. -/
def SameFiles (t t' : FileTree) : Prop := ∀ place, t'.file? place = t.file? place

theorem SameFiles.refl (t : FileTree) : t.SameFiles t := fun _ => rfl

theorem SameFiles.trans (h : t.SameFiles t') (h' : t'.SameFiles t'') : t.SameFiles t'' :=
  fun place => (h' place).trans (h place)

theorem file?_put_file (h : t.entry? place ≠ some .directory) (q : List String) (c : Bytes) :
    FileTree.file? (t.put place (.file c)) q = if place = q then some c else t.file? q := by
  rw [file?, entry_put_file h]
  split_ifs <;> rfl

/-- A directory takes the place of no file. -/
theorem sameFiles_put_directory (h : t.entry? place = none) : t.SameFiles (t.put place .directory) := by
  intro q
  rw [file?, entry_put, file?]
  split_ifs with hq hplace
  · rw [hq, entry?, if_pos rfl]
  · rw [← hplace, h]
  · rfl

/-! ### Directories that are made -/

theorem sameFiles_createDirectory (h : t.createDirectory p = .ok t') : t.SameFiles t' := by
  obtain ⟨s, -, hmade⟩ := bind_eq_ok.1 h
  split at hmade
  · cases hmade
  · split at hmade
    · cases hmade
    · rename_i hfree
      obtain rfl := Except.ok.inj hmade
      exact sameFiles_put_directory hfree

theorem sameFiles_climb (missing ps : List String) : t.SameFiles (t.climb missing ps).1 := by
  induction ps generalizing missing with
  | nil => exact .refl t
  | cons p ps ih =>
    unfold climb
    split
    · exact .refl t
    · split
      · rename_i made hmade
        exact sameFiles_createDirectory hmade
      · split_ifs
        · exact ih (p :: missing)
        · exact .refl t
        · exact .refl t

theorem sameFiles_createAll (ps : List String) : t.SameFiles (t.createAll ps).1 := by
  induction ps generalizing t with
  | nil => exact .refl t
  | cons p ps ih =>
    unfold createAll
    split
    · rename_i made hmade
      exact (sameFiles_createDirectory hmade).trans ih
    · split_ifs
      · exact ih
      · exact .refl t

/-- **Directories are made without touching a file**, also when that fails midway. -/
theorem sameFiles_createDirectories (t : FileTree) (p : String) :
    t.SameFiles (t.createDirectories p).1 := by
  have hclimb := sameFiles_climb (t := t) [] (Path.ancestors (p.length + 1) p)
  unfold createDirectories
  split
  · rename_i heq
    rwa [heq] at hclimb
  · rename_i heq
    rw [heq] at hclimb
    exact hclimb.trans (sameFiles_createAll _)

end FileTree

namespace Files

open FileTree

variable {t t' t₁ : FileTree} {path : String} {c : Bytes} {source target : List String}

theorem sameFiles_withParent (h : (withParent t path).1 = t₁) : t.SameFiles t₁ := by
  subst h
  unfold withParent
  split
  · exact .refl t
  · exact .refl t
  · exact sameFiles_createDirectories t _

/-! ### What a write can come to -/

/-- **What a write can come to.** -/
inductive Comes (t : FileTree) (path : String) (c : Bytes) : Except Failure Unit × FileTree → Prop where
  /-- The directory could not be made. -/
  | noDirectory {t₁ : FileTree} {e : FileError} {f : Failure} (hparent : withParent t path = (t₁, .error e)) :
      Comes t path c (.error f, t₁)
  /-- The temporary file could not be made. -/
  | noTemporary {t₁ : FileTree} {f : Failure} (hparent : withParent t path = (t₁, .ok ()))
      (hno : ∀ source, ¬ t₁.Leads (Path.temporary path) source) : Comes t path c (.error f, t₁)
  /-- The temporary file was made, and could not take the name of the file. -/
  | leftBehind {t₁ : FileTree} {source : List String} {f : Failure}
      (hparent : withParent t path = (t₁, .ok ())) (hsource : t₁.Leads (Path.temporary path) source)
      (hno : ∀ target, ¬ t₁.Leads path target) : Comes t path c (.error f, t₁.put source (.file c))
  /-- The temporary file took the name of the file. -/
  | replaced {t₁ : FileTree} {source target : List String} (hparent : withParent t path = (t₁, .ok ()))
      (hsource : t₁.Leads (Path.temporary path) source) (htarget : t₁.Leads path target) :
      Comes t path c (.ok (), t₁.written source target c)

theorem put_put (t : FileTree) (place : List String) (e e' : Entry) :
    (t.put place e).put place e' = t.put place e' := by
  unfold put
  congr 1
  refine Std.ExtTreeMap.ext_getElem? fun q => ?_
  simp only [Std.ExtTreeMap.getElem?_insert]
  split_ifs <;> rfl

/-- A step that fails leaves the tree as it was. -/
theorem settle_of_not_ok {x : Except FileError FileTree} (h : ∀ t', x ≠ .ok t') :
    ∃ e, settle t x = (.error e, t) := by
  cases x with
  | error e => exact ⟨e, rfl⟩
  | ok t' => exact absurd rfl (h t')

theorem replacing_of_noTemporary {temporary a₁ a₂ a₃ : String}
    (hno : ∀ source, ¬ t.Leads temporary source) :
    ∃ f, onTree (replacing temporary path c a₁ a₂ a₃) t = (.error f, t) := by
  obtain ⟨e, he⟩ : ∃ e, onTree (create temporary) t = (.error e, t) :=
    settle_of_not_ok fun t' h => by
      obtain ⟨source, hsource, -⟩ := write_eq_ok.1 h
      exact hno source hsource
  exact ⟨_, by rw [replacing, onTree_next, he]⟩

/-- Where the file cannot be, the new content stays in the temporary file. -/
theorem replacing_of_noTarget {temporary a₁ a₂ a₃ : String} (hsource : t.Leads temporary source)
    (hno : ∀ target, ¬ t.Leads path target) :
    ∃ f, onTree (replacing temporary path c a₁ a₂ a₃) t = (.error f, t.put source (.file c)) := by
  have hcreate : onTree (create temporary) t = (.ok (), t.put source (.file [])) :=
    settle_eq_ok.2 (write_eq_ok.2 ⟨source, hsource, rfl⟩)
  have hwrite : onTree (write temporary c) (t.put source (.file [])) =
      (.ok (), t.put source (.file c)) := by
    refine settle_eq_ok.2 (write_eq_ok.2 ⟨source, hsource.put_file [], ?_⟩)
    exact (put_put ..).symm
  have hlast : onTree (replacing temporary path c a₁ a₂ a₃) t =
      onTree (next a₃ (rename temporary path) (return .ok ())) (t.put source (.file c)) := by
    rw [replacing, onTree_next, hcreate]
    dsimp only
    rw [onTree_next, hwrite]
  obtain ⟨e, he⟩ : ∃ e, onTree (rename temporary path) (t.put source (.file c)) =
      (.error e, t.put source (.file c)) := by
    refine settle_of_not_ok fun t' h => ?_
    -- had the last step succeeded, the file would have found its place
    obtain ⟨-, target, -, htarget, -⟩ :=
      leads_of_replacing (hlast.trans (next_eq_ok.2 ⟨t', settle_eq_ok.2 h, rfl⟩))
    exact hno target htarget
  exact ⟨_, by rw [hlast, onTree_next, he]⟩

/-- The directory is made and the work goes on, or that fails. -/
theorem makeParent_cases (t : FileTree) (path : String) (rest : Work (Except Failure Unit)) :
    (∃ t₁, withParent t path = (t₁, .ok ()) ∧ onTree (makeParent path rest) t = onTree rest t₁) ∨
      ∃ t₁ e f, withParent t path = (t₁, .error e) ∧ onTree (makeParent path rest) t = (.error f, t₁) := by
  unfold makeParent
  split
  · exact .inl ⟨t, withParent_of_none (by simp [*]), rfl⟩
  · exact .inl ⟨t, withParent_of_none (by simp [*]), rfl⟩
  · rename_i p hne hp
    have hmade : onTree (createDirectories p) t = ((t.createDirectories p).2, (t.createDirectories p).1) := rfl
    rw [withParent_of_some hp hne, onTree_next, hmade]
    rcases t.createDirectories p with ⟨t₁, e | _⟩
    · exact .inr ⟨t₁, e, _, rfl, rfl⟩
    · exact .inl ⟨t₁, rfl, rfl⟩

theorem comes_write (t : FileTree) (path : String) (c : Bytes) :
    Comes t path c (onTree (writeAtomically path c) t) := by
  rw [writeAtomically]
  rcases makeParent_cases t path (replacing (Path.temporary path) path c _ _ _) with
    ⟨t₁, hparent, hwrite⟩ | ⟨t₁, e, f, hparent, hwrite⟩
  · rw [hwrite]
    by_cases hsource : ∃ source, t₁.Leads (Path.temporary path) source
    · obtain ⟨source, hsource⟩ := hsource
      by_cases htarget : ∃ target, t₁.Leads path target
      · obtain ⟨target, htarget⟩ := htarget
        rw [replacing_of_leads hsource htarget]
        exact .replaced hparent hsource htarget
      · have hno : ∀ target, ¬ t₁.Leads path target := not_exists.1 htarget
        obtain ⟨f, hf⟩ := replacing_of_noTarget hsource hno
        rw [hf]
        exact .leftBehind hparent hsource hno
    · have hno : ∀ source, ¬ t₁.Leads (Path.temporary path) source := not_exists.1 hsource
      obtain ⟨f, hf⟩ := replacing_of_noTemporary hno
      rw [hf]
      exact .noTemporary hparent hno
  · rw [hwrite]
    exact .noDirectory hparent

/-! ### When a write is all or nothing -/

/-- A write that succeeds gives the file its new content and touches no other one, and one that fails touches
none. -/
def AllOrNothing (t : FileTree) (path : String) (c : Bytes) : Prop :=
  match onTree (writeAtomically path c) t with
  | (.ok (), t') => t'.read path = .ok c ∧
      ∃ target, t'.Leads path target ∧ ∀ place, place ≠ target → t'.file? place = t.file? place
  | (.error _, t') => t.SameFiles t'

/-- What a write does in any case: the file has its new content if it succeeds, and all files are as they were
but for that one and the temporary one. -/
structure Spares (t : FileTree) (path : String) (c : Bytes) (r : Except Failure Unit × FileTree) : Prop where
  written : r.1 = .ok () → r.2.read path = .ok c
  others : ∀ place, ¬ r.2.Leads path place → ¬ r.2.Leads (Path.temporary path) place →
    r.2.file? place = t.file? place

/-- The files after a file took the place of another one. -/
theorem file?_written (hsource : t.Leads (Path.temporary path) source) (htarget : t.Leads path target)
    (c : Bytes) (q : List String) : FileTree.file? (t.written source target c) q =
      if target = q then some c else if source = q then none else t.file? q := by
  have hfree : FileTree.entry? (t.remove source) target ≠ some .directory := by
    rw [entry_remove_file hsource.free]
    split_ifs
    · simp
    · exact htarget.free
  rw [written, file?_put_file hfree, file?, entry_remove_file hsource.free, file?]
  split_ifs <;> rfl

/-- Every file is spared that is neither the one that is written nor the temporary one. -/
theorem spares_write (t : FileTree) (path : String) (c : Bytes) :
    Spares t path c (onTree (writeAtomically path c) t) := by
  have hcomes := comes_write t path c
  generalize onTree (writeAtomically path c) t = r at hcomes ⊢
  cases hcomes with
  | noDirectory hparent =>
    exact ⟨nofun, fun place _ _ => sameFiles_withParent (congrArg Prod.fst hparent) place⟩
  | noTemporary hparent _ =>
    exact ⟨nofun, fun place _ _ => sameFiles_withParent (congrArg Prod.fst hparent) place⟩
  | @leftBehind _ source _ hparent hsource _ =>
    refine ⟨nofun, fun place _ hplace => ?_⟩
    have hne : source ≠ place := fun heq => hplace (heq ▸ hsource.put_file c)
    show FileTree.file? (_ : FileTree) place = _
    rw [file?_put_file hsource.free, if_neg hne]
    exact sameFiles_withParent (congrArg Prod.fst hparent) place
  | @replaced t₁ source target hparent hsource htarget =>
    have hroom : t₁.Room path source target := ⟨hsource, htarget, parent_of_withParent hparent⟩
    refine ⟨fun _ => hroom.read_written c, fun place hpath htemporary => ?_⟩
    have hne : source ≠ place := fun heq => htemporary (heq ▸ (hroom.again c).source)
    have hne' : target ≠ place := fun heq => hpath (heq ▸ (hroom.again c).target)
    show FileTree.file? (_ : FileTree) place = _
    rw [file?_written hsource htarget, if_neg hne', if_neg hne]
    exact sameFiles_withParent (congrArg Prod.fst hparent) place

/-- The temporary file does no harm: it takes the place of no file before it becomes the file, or, where it
is left behind, it was there already. -/
def Harmless (t t₁ : FileTree) (path : String) (c : Bytes) (source : List String) : Prop :=
  (∃ target, t₁.Leads path target ∧ (t.file? source = none ∨ source = target)) ∨
    ((∀ target, ¬ t₁.Leads path target) ∧ t.file? source = some c)

/-- **A write is all or nothing exactly if its temporary file does no harm.** In any case the file has its
new content when the write succeeds, and no file but that one and the temporary one is touched. -/
theorem write_allOrNothing_iff (t : FileTree) (path : String) (c : Bytes) :
    Spares t path c (onTree (writeAtomically path c) t) ∧
    (AllOrNothing t path c ↔ ∀ t₁ source, withParent t path = (t₁, .ok ()) →
      t₁.Leads (Path.temporary path) source → Harmless t t₁ path c source) := by
  refine ⟨spares_write t path c, ?_⟩
  have hspares := spares_write t path c
  have hcomes := comes_write t path c
  unfold AllOrNothing
  generalize onTree (writeAtomically path c) t = r at hcomes hspares ⊢
  cases hcomes with
  | noDirectory hparent =>
    refine ⟨fun _ t₁ source hmade => ?_, fun _ => sameFiles_withParent (congrArg Prod.fst hparent)⟩
    cases hparent.symm.trans hmade
  | noTemporary hparent hno =>
    refine ⟨fun _ t₁ source hmade hsource => ?_, fun _ => sameFiles_withParent (congrArg Prod.fst hparent)⟩
    obtain ⟨rfl, -⟩ := Prod.mk.inj (hparent.symm.trans hmade)
    exact absurd hsource (hno source)
  | @leftBehind t₁ source _ hparent hsource hno =>
    have hsame : t.SameFiles t₁ := sameFiles_withParent (congrArg Prod.fst hparent)
    constructor
    · intro h t₂ source' hmade hsource'
      obtain ⟨rfl, -⟩ := Prod.mk.inj (hparent.symm.trans hmade)
      obtain rfl := hsource.unique hsource'
      refine .inr ⟨hno, ?_⟩
      rw [← h source, file?_put_file hsource.free, if_pos rfl]
    · intro h place
      rcases h t₁ source hparent hsource with ⟨target, htarget, -⟩ | ⟨-, hthere⟩
      · exact absurd htarget (hno target)
      rw [file?_put_file hsource.free, hsame place]
      split_ifs with hplace
      · rw [← hplace, hthere]
      · rfl
  | @replaced t₁ source target hparent hsource htarget =>
    have hsame : t.SameFiles t₁ := sameFiles_withParent (congrArg Prod.fst hparent)
    have hroom : t₁.Room path source target := ⟨hsource, htarget, parent_of_withParent hparent⟩
    constructor
    · rintro ⟨-, target', htarget', hothers⟩ t₂ source' hmade hsource'
      obtain ⟨rfl, -⟩ := Prod.mk.inj (hparent.symm.trans hmade)
      obtain rfl := hsource.unique hsource'
      obtain rfl := (hroom.again c).target.unique htarget'
      refine .inl ⟨target, htarget, ?_⟩
      by_cases heq : source = target
      · exact .inr heq
      · refine .inl ?_
        rw [← hothers source heq, file?_written hsource htarget, if_neg (Ne.symm heq), if_pos rfl]
    · intro h
      refine ⟨hspares.written rfl, target, (hroom.again c).target, fun place hplace => ?_⟩
      rw [file?_written hsource htarget, if_neg (Ne.symm hplace), hsame place]
      split_ifs with hmoved
      · rcases h t₁ source hparent hsource with ⟨target', htarget', hfree | heq⟩ | ⟨hno, -⟩
        · rw [← hmoved, hfree]
        · exact absurd (hmoved.symm.trans (heq.trans (htarget'.unique htarget))) hplace
        · exact absurd htarget (hno target)
      · rfl

/-- A directory with a file in it, and a file with the name of a temporary one. -/
def crowded : FileTree :=
  (FileTree.place (FileTree.place {} [] ["dir", "x"] [1]) [] ["a.tmp"] [2])

/-- A write to a directory leaves the temporary file behind, and one next to a file of the temporary name
loses that file. -/
theorem crowded_not_allOrNothing :
    ¬ AllOrNothing crowded "dir" [3] ∧ ¬ AllOrNothing crowded "a.json" [3] := by
  unfold AllOrNothing
  constructor
  · have hresult : (onTree (writeAtomically "dir" [3]) crowded).1.toBool = false := by decide +kernel
    have hleft : FileTree.file? (onTree (writeAtomically "dir" [3]) crowded).2 ["dir.tmp"] ≠
        FileTree.file? crowded ["dir.tmp"] := by decide +kernel
    generalize onTree (writeAtomically "dir" [3]) crowded = r at hresult hleft
    obtain ⟨_ | _, t⟩ := r
    · exact fun h => hleft (h ["dir.tmp"])
    · cases hresult
  · have hresult : (onTree (writeAtomically "a.json" [3]) crowded).1.toBool = true := by decide +kernel
    have hlost : FileTree.file? (onTree (writeAtomically "a.json" [3]) crowded).2 ["a.tmp"] ≠
        FileTree.file? crowded ["a.tmp"] := by decide +kernel
    have hleads : (onTree (writeAtomically "a.json" [3]) crowded).2.Leads "a.json" ["a.json"] :=
      ⟨⟨⟨[], .name "a.json", false⟩, by decide +kernel⟩, by decide +kernel⟩
    generalize onTree (writeAtomically "a.json" [3]) crowded = r at hresult hlost hleads
    obtain ⟨_ | _, t⟩ := r
    · cases hresult
    · rintro ⟨-, target, htarget, hothers⟩
      obtain rfl := htarget.unique hleads
      exact hlost (hothers ["a.tmp"] (by decide))

end Files

end Upkeep
