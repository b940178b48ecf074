import Mathlib.Tactic.SplitIfs
import Upkeep.Files.AtomicWrite
import Upkeep.Proofs.Json.Literal

/-!
# What a file holds after it was written

New content takes the place of the old one by way of a temporary file. If there is room for that once, there
is room for it ever after: the directory of the file is there, and neither name gets to stand for a
directory. So what was written last is what the file holds, and nothing else is left of earlier writes.

* `FileTree.Keeps`: a tree in which all directories are still there.
* `FileTree.createDirectories_of_isDirectory`: a directory that was made need not be made again.
* `FileTree.Room`: **what it takes to write a file**.
* `FileTree.Room.read_other`: a write leaves all other files as they are.
* `Files.exists_room`: **a write that succeeds** has found room, and then it succeeds for every content.
* `Files.write_again`: **what was written is read**, and a later write leaves nothing of it.
-/

namespace Upkeep

namespace FileTree

variable {t t' : FileTree} {p path : String} {place l goal : List String} {spot : Spot} {e : Entry}
  {c c' : Bytes}

theorem bind_eq_ok {ε α β : Type} {x : Except ε α} {f : α → Except ε β} {b : β} :
    x.bind f = .ok b ↔ ∃ a, x = .ok a ∧ f a = .ok b := by
  cases x <;> simp [Except.bind]

/-! ### What stands at a place -/

theorem entry_put (t : FileTree) (place q : List String) (e : Entry) :
    FileTree.entry? (t.put place e) q = if q = [] then some .directory else
      if place = q then some e else t.entry? q := by
  unfold entry? put
  split_ifs with hq hplace
  · rfl
  · simp [hplace]
  · simp [hplace, Std.ExtTreeMap.getElem?_insert]

theorem entry_remove (t : FileTree) (place q : List String) :
    FileTree.entry? (t.remove place) q = if q = [] then some .directory else
      if place = q then none else t.entry? q := by
  unfold entry? remove
  split_ifs with hq hplace
  · rfl
  · simp [hplace]
  · simp [hplace, Std.ExtTreeMap.getElem?_erase]

theorem ne_nil_of_entry? (h : t.entry? place ≠ some .directory) : place ≠ [] := by
  rintro rfl
  exact h (if_pos rfl)

/-! ### Directories that stay -/

/-- All directories are still there, and relative paths begin at the same one. -/
structure Keeps (t t' : FileTree) : Prop where
  here : t'.here = t.here
  directory : ∀ place, t.entry? place = some .directory → t'.entry? place = some .directory

theorem keeps_put (h : t.entry? place ≠ some .directory) (e : Entry) : Keeps t (t.put place e) := by
  refine ⟨rfl, fun q hq => ?_⟩
  rw [entry_put, hq]
  split_ifs with hnil hplace
  · rfl
  · exact absurd (hplace ▸ hq) h
  · rfl

theorem keeps_remove (h : t.entry? place ≠ some .directory) : Keeps t (t.remove place) := by
  refine ⟨rfl, fun q hq => ?_⟩
  rw [entry_remove, hq]
  split_ifs with hnil hplace
  · rfl
  · exact absurd (hplace ▸ hq) h
  · rfl

theorem Keeps.trans {t'' : FileTree} (h : Keeps t t') (h' : Keeps t' t'') : Keeps t t'' :=
  ⟨h'.here.trans h.here, fun q hq => h'.directory q (h.directory q hq)⟩

theorem Keeps.walk (h : Keeps t t') (hw : t.walk place l = .ok goal) : t'.walk place l = .ok goal := by
  induction l generalizing place with
  | nil => exact hw
  | cons s rest ih =>
    unfold FileTree.walk at hw ⊢
    split_ifs at hw ⊢ with hvoid hup hlong
    · exact ih hw
    · exact ih hw
    · split at hw
      · cases hw
      · cases hw
      · rename_i hentry
        rw [h.directory _ hentry]
        exact ih hw

theorem Keeps.locate (h : Keeps t t') (hl : t.locate path = .ok spot) : t'.locate path = .ok spot := by
  unfold FileTree.locate at hl ⊢
  rw [h.here]
  generalize (if Path.isAbsolute path then [] else t.here) = start at hl ⊢
  dsimp only at hl ⊢
  split_ifs at hl ⊢ with hempty hnul
  split at hl
  · exact hl
  · obtain ⟨directory, hwalk, hlast⟩ := bind_eq_ok.1 hl
    refine bind_eq_ok.2 ⟨directory, h.walk hwalk, ?_⟩
    split_ifs at hlast ⊢ with hdots
    · obtain ⟨goal, hgoal, rfl⟩ := Except.map_eq_ok.1 hlast
      exact Except.map_eq_ok.2 ⟨goal, h.walk hgoal, rfl⟩
    · exact hlast

theorem lookup_directory : t.lookup p = .ok .directory ↔ ∃ s, t.locate p = .ok s ∧
    ∀ place, Spot.place? s = some place → t.entry? place = some .directory := by
  unfold lookup
  rw [bind_eq_ok]
  refine exists_congr fun s => and_congr_right fun _ => ?_
  cases Spot.place? s with
  | none => simp
  | some place =>
    cases hentry : t.entry? place with
    | none => simp [hentry]
    | some e =>
      cases e with
      | file c => cases s.slash <;> simp [hentry]
      | directory => simp [hentry]

theorem isDirectory_iff : t.isDirectory p = true ↔ t.lookup p = .ok .directory := by
  unfold isDirectory
  split
  · simp [*]
  · rename_i h
    simp only [Bool.false_eq_true, false_iff]
    exact h

theorem Keeps.isDirectory (h : Keeps t t') (hp : t.isDirectory p) : t'.isDirectory p := by
  rw [isDirectory_iff, lookup_directory] at hp ⊢
  obtain ⟨s, hs, hplace⟩ := hp
  exact ⟨s, h.locate hs, fun place hq => h.directory place (hplace place hq)⟩

/-! ### Directories that are made -/

theorem createDirectory_eq_ok (h : t.createDirectory p = .ok t') : Keeps t t' ∧ t'.isDirectory p := by
  obtain ⟨s, hs, hmade⟩ := bind_eq_ok.1 h
  split at hmade
  · cases hmade
  · rename_i place hplace
    split at hmade
    · cases hmade
    · rename_i hfree
      obtain rfl := Except.ok.inj hmade
      have hkeeps : Keeps t (t.put place .directory) := keeps_put (by simp [hfree]) .directory
      refine ⟨hkeeps, isDirectory_iff.2 (lookup_directory.2 ⟨s, hkeeps.locate hs, fun q hq => ?_⟩)⟩
      obtain rfl := Option.some.inj (hplace.symm.trans hq)
      rw [entry_put, if_pos rfl, ite_self]

theorem createDirectory_of_isDirectory (h : t.isDirectory p) : t.createDirectory p = .error .taken := by
  obtain ⟨s, hs, hdirectory⟩ := lookup_directory.1 (isDirectory_iff.1 h)
  unfold createDirectory
  simp only [hs, Except.bind]
  cases hplace : Spot.place? s with
  | none => rfl
  | some place =>
    dsimp only
    rw [hdirectory place hplace]

/-- A path that is there from the start. -/
def Given (p : String) : Prop := p = "" ∨ Path.parent? p = none

/-- What the search for the first directory that is there finds: the first path itself, or paths above it
that have to be made before it. -/
theorem climb_eq_ok {missing found ps : List String} (h : t.climb missing ps = (t', .ok found)) :
    (found = missing ∧ ∀ p rest, ps = p :: rest → Given p ∨ t'.isDirectory p) ∨
      ∃ above p rest, ps = p :: rest ∧ found = above ++ p :: missing := by
  induction ps generalizing missing with
  | nil =>
    obtain ⟨-, hfound⟩ := Prod.mk.inj h
    exact .inl ⟨(Except.ok.inj hfound).symm, by simp⟩
  | cons p ps ih =>
    have hfirst {P : String → Prop} (hp : P p) : ∀ q rest, p :: ps = q :: rest → P q := by
      rintro q rest heq
      exact (List.cons.inj heq).1 ▸ hp
    unfold climb at h
    split at h
    · rename_i hgiven
      obtain ⟨-, hfound⟩ := Prod.mk.inj h
      exact .inl ⟨(Except.ok.inj hfound).symm, hfirst (.inl hgiven)⟩
    · split at h
      · rename_i made hmade
        obtain ⟨rfl, hfound⟩ := Prod.mk.inj h
        exact .inl ⟨(Except.ok.inj hfound).symm, hfirst (.inr (createDirectory_eq_ok hmade).2)⟩
      · split_ifs at h with hmissing hthere
        · rcases ih h with ⟨rfl, -⟩ | ⟨above, q, rest, -, rfl⟩
          · exact .inr ⟨[], p, ps, rfl, rfl⟩
          · exact .inr ⟨above ++ [q], p, ps, rfl, by simp⟩
        · obtain ⟨rfl, hfound⟩ := Prod.mk.inj h
          exact .inl ⟨(Except.ok.inj hfound).symm, hfirst (.inr hthere.2)⟩
        · cases (Prod.mk.inj h).2

theorem createAll_append {ps : List String} (h : t.createAll (ps ++ [p]) = (t', .ok ())) :
    t'.isDirectory p := by
  induction ps generalizing t with
  | nil =>
    rw [List.nil_append, createAll] at h
    split at h
    · rename_i made hmade
      obtain ⟨rfl, -⟩ := Prod.mk.inj h
      exact (createDirectory_eq_ok hmade).2
    · split_ifs at h with hthere
      · obtain ⟨rfl, -⟩ := Prod.mk.inj h
        exact hthere.2
      · cases (Prod.mk.inj h).2
  | cons q ps ih =>
    rw [List.cons_append, createAll] at h
    split at h
    · exact ih h
    · split_ifs at h
      · exact ih h
      · cases (Prod.mk.inj h).2

/-- A directory that was made is there. -/
theorem isDirectory_of_createDirectories (h : t.createDirectories p = (t', .ok ())) :
    Given p ∨ t'.isDirectory p := by
  unfold createDirectories at h
  split at h
  · cases (Prod.mk.inj h).2
  · rename_i made missing hclimb
    rcases climb_eq_ok hclimb with ⟨rfl, hfirst⟩ | ⟨above, q, rest, hps, rfl⟩
    · obtain ⟨rfl, -⟩ := Prod.mk.inj h
      exact hfirst p _ rfl
    · obtain rfl := (List.cons.inj hps).1
      exact .inr (createAll_append h)

/-- A directory that is there need not be made. -/
theorem createDirectories_of_isDirectory (h : Given p ∨ t.isDirectory p) :
    t.createDirectories p = (t, .ok ()) := by
  have hclimb : t.climb [] (Path.ancestors (p.length + 1) p) = (t, .ok []) := by
    rw [Path.ancestors, climb]
    split_ifs with hgiven
    · rfl
    · have hp := h.resolve_left hgiven
      rw [createDirectory_of_isDirectory hp]
      show (if FileError.taken = .missing then _ else _) = _
      rw [if_neg (by decide), if_pos ⟨rfl, hp⟩]
  rw [createDirectories, hclimb]
  rfl

/-! ### Files that are written -/

/-- A path leads to a place that can hold a file. -/
structure Leads (t : FileTree) (path : String) (place : List String) : Prop where
  locate : ∃ s, t.locate path = .ok s ∧ Spot.place? s = some place ∧ s.slash = false
  free : t.entry? place ≠ some .directory

theorem write_eq_ok : t.write path c = .ok t' ↔
    ∃ place, t.Leads path place ∧ t' = t.put place (.file c) := by
  constructor
  · intro h
    obtain ⟨s, hs, hwritten⟩ := bind_eq_ok.1 h
    split at hwritten
    · cases hwritten
    · rename_i place hplace
      split_ifs at hwritten with htaken
      obtain ⟨hslash, hfree⟩ := not_or.1 htaken
      exact ⟨place, ⟨⟨s, hs, hplace, by simpa using hslash⟩, hfree⟩, (Except.ok.inj hwritten).symm⟩
  · rintro ⟨place, ⟨⟨s, hs, hplace, hslash⟩, hfree⟩, rfl⟩
    refine bind_eq_ok.2 ⟨s, hs, ?_⟩
    rw [hplace]
    dsimp only
    rw [if_neg (by simp [hslash, hfree])]

/-- The tree after a file took the place of another one, with new content. -/
def written (t : FileTree) (source target : List String) (c : Bytes) : FileTree :=
  (t.remove source).put target (.file c)

/-- **What it takes to write a file** by way of a temporary one. -/
structure Room (t : FileTree) (path : String) (source target : List String) : Prop where
  source : t.Leads (Path.temporary path) source
  target : t.Leads path target
  parent : ∀ p, Path.parent? path = some p → p ≠ "" → Given p ∨ t.isDirectory p

variable {source target : List String}

theorem Leads.keep (h : t.Leads path place) (hk : Keeps t t')
    (hfree : t'.entry? place ≠ some .directory) : t'.Leads path place := by
  obtain ⟨s, hs, hplace⟩ := h.locate
  exact ⟨⟨s, hk.locate hs, hplace⟩, hfree⟩

theorem Leads.unique {place' : List String} (h : t.Leads path place) (h' : t.Leads path place') :
    place = place' := by
  obtain ⟨s, hs, hplace, -⟩ := h.locate
  obtain ⟨s', hs', hplace', -⟩ := h'.locate
  obtain rfl := Except.ok.inj (hs.symm.trans hs')
  exact Option.some.inj (hplace.symm.trans hplace')

/-- A file stands at a place where one was put. -/
theorem entry_put_file (h : t.entry? place ≠ some .directory) (q : List String) (c : Bytes) :
    FileTree.entry? (t.put place (.file c)) q = if place = q then some (.file c) else t.entry? q := by
  rw [entry_put]
  have hnil := ne_nil_of_entry? h
  split_ifs with hq hplace
  · exact absurd (hplace.trans hq) hnil
  · exact hq ▸ (if_pos rfl).symm
  · rfl
  · rfl

theorem entry_remove_file (h : t.entry? place ≠ some .directory) (q : List String) :
    FileTree.entry? (t.remove place) q = if place = q then none else t.entry? q := by
  rw [entry_remove]
  have hnil := ne_nil_of_entry? h
  split_ifs with hq hplace
  · exact absurd (hplace.trans hq) hnil
  · exact hq ▸ (if_pos rfl).symm
  · rfl
  · rfl

theorem Room.free_remove (h : t.Room path source target) :
    FileTree.entry? (t.remove source) target ≠ some .directory := by
  rw [entry_remove_file h.source.free]
  split_ifs
  · simp
  · exact h.target.free

theorem Room.keeps (h : t.Room path source target) (c : Bytes) :
    Keeps t (t.written source target c) :=
  (keeps_remove h.source.free).trans (keeps_put h.free_remove _)

theorem Room.entry_written (h : t.Room path source target) (c : Bytes) (q : List String) :
    FileTree.entry? (t.written source target c) q = if target = q then some (.file c) else
      if source = q then none else t.entry? q := by
  rw [written, entry_put_file h.free_remove, entry_remove_file h.source.free]

/-- There is room again after a write. -/
theorem Room.again (h : t.Room path source target) (c : Bytes) :
    (t.written source target c).Room path source target where
  source := h.source.keep (h.keeps c) (by
    rw [h.entry_written, if_pos rfl]
    split_ifs <;> simp)
  target := h.target.keep (h.keeps c) (by
    rw [h.entry_written]
    simp)
  parent p hp hne := (h.parent p hp hne).imp_right (h.keeps c).isDirectory

theorem remove_put (t : FileTree) (place : List String) (e : Entry) :
    (t.put place e).remove place = t.remove place := by
  unfold put remove
  congr 1
  refine Std.ExtTreeMap.ext_getElem? fun q => ?_
  simp only [Std.ExtTreeMap.getElem?_insert, Std.ExtTreeMap.getElem?_erase]
  split_ifs <;> rfl

/-- What was written last is all that is left. -/
theorem written_written (t : FileTree) (source target : List String) (c c' : Bytes) :
    (t.written source target c).written source target c' = t.written source target c' := by
  unfold written put remove
  congr 1
  refine Std.ExtTreeMap.ext_getElem? fun q => ?_
  simp only [Std.ExtTreeMap.getElem?_insert, Std.ExtTreeMap.getElem?_erase]
  split_ifs <;> rfl

theorem Room.read_written (h : t.Room path source target) (c : Bytes) :
    (t.written source target c).read path = .ok c := by
  obtain ⟨s, hs, hplace, hslash⟩ := (h.again c).target.locate
  have hlookup : (t.written source target c).lookup path = .ok (.file c) := by
    refine bind_eq_ok.2 ⟨s, hs, ?_⟩
    rw [hplace]
    dsimp only
    rw [h.entry_written, if_pos rfl]
    dsimp only
    rw [hslash]
    rfl
  rw [read, hlookup]
  rfl

/-- A write leaves all other files as they are. -/
theorem Room.read_other {other : String} {q : List String} (h : t.Room path source target)
    (hq : t.Leads other q) (hsource : source ≠ q) (htarget : target ≠ q) (c : Bytes) :
    (t.written source target c).read other = t.read other := by
  have hentry : FileTree.entry? (t.written source target c) q = t.entry? q := by
    rw [h.entry_written, if_neg htarget, if_neg hsource]
  obtain ⟨s, hs, hplace, -⟩ := hq.locate
  have hlookup : (t.written source target c).lookup other = t.lookup other := by
    unfold lookup
    simp only [hs, (h.keeps c).locate hs, Except.bind, hplace, hentry]
  rw [read, read, hlookup]

theorem rename_eq_ok {old new : String} : t.rename old new = .ok t' ↔ ∃ s g source target e,
    t.locate old = .ok s ∧ t.locate new = .ok g ∧ Spot.place? s = some source ∧
    Spot.place? g = some target ∧ t.entry? source = some e ∧ g.slash = false ∧
    t.entry? target ≠ some .directory ∧ t' = (t.remove source).put target e := by
  constructor
  · intro h
    obtain ⟨s, hs, h⟩ := bind_eq_ok.1 h
    obtain ⟨g, hg, h⟩ := bind_eq_ok.1 h
    split at h
    · rename_i source target hsource htarget
      split at h
      · cases h
      · rename_i e he
        split_ifs at h with hslash hfree
        exact ⟨s, g, source, target, e, hs, hg, hsource, htarget, he, by simpa using hslash, hfree,
          (Except.ok.inj h).symm⟩
    · cases h
  · rintro ⟨s, g, source, target, e, hs, hg, hsource, htarget, he, hslash, hfree, rfl⟩
    refine bind_eq_ok.2 ⟨s, hs, bind_eq_ok.2 ⟨g, hg, ?_⟩⟩
    rw [hsource, htarget]
    dsimp only
    rw [he]
    dsimp only
    rw [hslash, if_neg (by simp), if_neg hfree]

/-- A directory is still there when a file was put elsewhere. -/
theorem keeps_of_put_file (h : t.entry? place ≠ some .directory) (c : Bytes) :
    Keeps (t.put place (.file c)) t := by
  refine ⟨rfl, fun q hq => ?_⟩
  rw [entry_put_file h] at hq
  split_ifs at hq
  · cases hq
  · exact hq

/-- A path still leads to its place when a file was written there. -/
theorem Leads.put_file {p : String} {q : List String} (h : t.Leads p q) (c : Bytes) :
    (t.put q (.file c)).Leads p q := by
  refine h.keep (keeps_put h.free _) ?_
  rw [entry_put_file h.free, if_pos rfl]
  simp

end FileTree

/-! ### Writing in one step -/

namespace Files

open FileTree

variable {t t' : FileTree} {path activity : String} {c : Bytes} {operation : Work (Except FileError Unit)}
  {rest : Work (Except Failure Unit)} {source target : List String}

theorem onTree_next : onTree (next activity operation rest) t =
    match onTree operation t with
    | (.error e, t₁) => (.error (.ofFile activity e), t₁)
    | (.ok (), t₁) => onTree rest t₁ := by
  unfold onTree next
  rw [Inquiry.perform_bind, StateT.run_bind]
  show (match (operation.perform answer).run t with | (x, t₁) => _) = _
  rcases (operation.perform answer).run t with ⟨_ | _, t₁⟩ <;> rfl

theorem next_eq_ok : onTree (next activity operation rest) t = (.ok (), t') ↔
    ∃ t₁, onTree operation t = (.ok (), t₁) ∧ onTree rest t₁ = (.ok (), t') := by
  rw [onTree_next]
  rcases onTree operation t with ⟨_ | _, t₁⟩ <;> simp

theorem settle_eq_ok {x : Except FileError FileTree} : settle t x = (.ok (), t') ↔ x = .ok t' := by
  cases x <;> simp [settle]

/-- The three operations by which new content takes the place of the old one, each with what is being
done. -/
abbrev replacing (temporary path : String) (c : Bytes) (a₁ a₂ a₃ : String) : Work (Except Failure Unit) :=
  next a₁ (create temporary) <| next a₂ (write temporary c) <| next a₃ (rename temporary path) <|
    return .ok ()

/-- New content takes the place of the old one only where there is room for a file, -/
theorem leads_of_replacing {temporary a₁ a₂ a₃ : String}
    (h : onTree (replacing temporary path c a₁ a₂ a₃) t = (.ok (), t')) :
    ∃ source target, t.Leads temporary source ∧ t.Leads path target ∧
      t' = t.written source target c := by
  simp only [next_eq_ok] at h
  obtain ⟨t₁, hcreate, t₂, hwrite, t₃, hrename, hdone⟩ := h
  obtain ⟨source, hsource, rfl⟩ := write_eq_ok.1 (settle_eq_ok.1 hcreate)
  obtain ⟨source', hsource', rfl⟩ := write_eq_ok.1 (settle_eq_ok.1 hwrite)
  obtain rfl := (hsource.put_file []).unique hsource'
  -- the tree before the temporary file has another name, and the directories in it
  have hkeeps := (keeps_put hsource.free (.file [])).trans (keeps_put hsource'.free (.file c))
  have hback := (keeps_of_put_file hsource'.free c).trans (keeps_of_put_file hsource.free [])
  obtain ⟨s, g, source', target, e, hs, hg, hplace, htarget, he, hslash, hfree, rfl⟩ :=
    rename_eq_ok.1 (settle_eq_ok.1 hrename)
  obtain ⟨s', hs', hplace', -⟩ := hsource.locate
  obtain rfl := Except.ok.inj ((hkeeps.locate hs').symm.trans hs)
  obtain rfl := Option.some.inj (hplace'.symm.trans hplace)
  rw [entry_put_file hsource'.free, if_pos rfl] at he
  obtain rfl := Option.some.inj he
  obtain rfl : _ = t' := (Prod.mk.inj hdone).2
  refine ⟨source, target, hsource, ⟨⟨g, hback.locate hg, htarget, hslash⟩, fun hdirectory =>
    hfree (hkeeps.directory _ hdirectory)⟩, ?_⟩
  rw [remove_put, remove_put, written]

/-- and where there is room it does. -/
theorem replacing_of_leads {temporary a₁ a₂ a₃ : String} {source target : List String}
    (hsource : t.Leads temporary source) (htarget : t.Leads path target) :
    onTree (replacing temporary path c a₁ a₂ a₃) t = (.ok (), t.written source target c) := by
  simp only [next_eq_ok]
  have hsource₁ := hsource.put_file []
  have htarget₂ : ((t.put source (.file [])).put source (.file c)).Leads path target := by
    refine htarget.keep ((keeps_put hsource.free _).trans (keeps_put hsource₁.free _)) ?_
    rw [entry_put_file hsource₁.free, entry_put_file hsource.free]
    split_ifs
    · simp
    · exact htarget.free
  refine ⟨_, settle_eq_ok.2 (write_eq_ok.2 ⟨source, hsource, rfl⟩), _,
    settle_eq_ok.2 (write_eq_ok.2 ⟨source, hsource₁, rfl⟩), t.written source target c, ?_, rfl⟩
  obtain ⟨s, hs, hplace, -⟩ := (hsource₁.put_file c).locate
  obtain ⟨g, hg, hplace', hslash⟩ := htarget₂.locate
  refine settle_eq_ok.2 (rename_eq_ok.2 ⟨s, g, source, target, .file c, hs, hg, hplace, hplace', ?_,
    hslash, htarget₂.free, ?_⟩)
  · rw [entry_put_file hsource₁.free, if_pos rfl]
  · rw [remove_put, remove_put, written]

/-- The tree in which the directory of a path was made, if the path names one. -/
def withParent (t : FileTree) (path : String) : FileTree × Except FileError Unit :=
  match Path.parent? path with
  | none => (t, .ok ())
  | some "" => (t, .ok ())
  | some p => t.createDirectories p

theorem withParent_of_some {p : String} (hp : Path.parent? path = some p) (hne : p ≠ "") :
    withParent t path = t.createDirectories p := by
  unfold withParent
  rw [hp]
  split
  · cases ‹some p = none›
  · exact absurd (Option.some.inj ‹some p = some ""›) hne
  · obtain rfl := Option.some.inj ‹some p = some _›
    rfl

theorem withParent_of_none (h : ∀ p, Path.parent? path = some p → p = "") :
    withParent t path = (t, .ok ()) := by
  unfold withParent
  split
  · rfl
  · rfl
  · rename_i p hne hp
    exact absurd (h p hp) hne

theorem makeParent_eq_ok : onTree (makeParent path rest) t = (.ok (), t') ↔
    ∃ t₁, withParent t path = (t₁, .ok ()) ∧ onTree rest t₁ = (.ok (), t') := by
  unfold makeParent
  split
  · rw [withParent_of_none (by simp [*])]
    exact ⟨fun h => ⟨t, rfl, h⟩, fun ⟨t₁, h₁, h⟩ => (Prod.mk.inj h₁).1 ▸ h⟩
  · rw [withParent_of_none (by simp [*])]
    exact ⟨fun h => ⟨t, rfl, h⟩, fun ⟨t₁, h₁, h⟩ => (Prod.mk.inj h₁).1 ▸ h⟩
  · rename_i p hne hp
    rw [withParent_of_some hp hne, next_eq_ok]
    refine exists_congr fun t₁ => and_congr_left fun _ => ?_
    show ((t.createDirectories p).2, (t.createDirectories p).1) = _ ↔ _
    simp [Prod.ext_iff, and_comm]

/-- Once it was made, the directory of a path is there. -/
theorem parent_of_withParent {t₁ : FileTree} (h : withParent t path = (t₁, .ok ())) (p : String)
    (hp : Path.parent? path = some p) (hne : p ≠ "") : Given p ∨ t₁.isDirectory p :=
  isDirectory_of_createDirectories (withParent_of_some hp hne ▸ h)

theorem withParent_of_room (h : t.Room path source target) : withParent t path = (t, .ok ()) := by
  by_cases hparent : ∃ p, Path.parent? path = some p ∧ p ≠ ""
  · obtain ⟨p, hp, hne⟩ := hparent
    rw [withParent_of_some hp hne]
    exact createDirectories_of_isDirectory (h.parent p hp hne)
  · exact withParent_of_none fun p hp => by_contra fun hne => hparent ⟨p, hp, hne⟩

/-- Where there is room, a write succeeds for every content. -/
theorem onTree_of_room (h : t.Room path source target) (c : Bytes) :
    onTree (writeAtomically path c) t = (.ok (), t.written source target c) :=
  makeParent_eq_ok.2 ⟨t, withParent_of_room h, replacing_of_leads h.source h.target⟩

/-- **A write that succeeds** has found room, once the directory was made. -/
theorem exists_room (h : (onTree (writeAtomically path c) t).1 = .ok ()) :
    ∃ (t₁ : FileTree) (source target : List String), t₁.Room path source target ∧
      ∀ c', onTree (writeAtomically path c') t = (.ok (), t₁.written source target c') := by
  have hwrite : onTree (writeAtomically path c) t =
      (.ok (), (onTree (writeAtomically path c) t).2) := Prod.ext h rfl
  obtain ⟨t₁, hparent, hreplace⟩ := makeParent_eq_ok.1 hwrite
  obtain ⟨source, target, hsource, htarget, -⟩ := leads_of_replacing hreplace
  refine ⟨t₁, source, target, ⟨hsource, htarget, parent_of_withParent hparent⟩, fun c' => ?_⟩
  exact makeParent_eq_ok.2 ⟨t₁, hparent, replacing_of_leads hsource htarget⟩

/-- **What was written is read**, and a later write leaves nothing of it. -/
theorem write_again (h : (onTree (writeAtomically path c) t).1 = .ok ()) (c₁ c₂ : Bytes) :
    (onTree (writeAtomically path c₁) t).1 = .ok () ∧
    (onTree (writeAtomically path c₁) t).2.read path = .ok c₁ ∧
    onTree (writeAtomically path c₂) (onTree (writeAtomically path c₁) t).2 =
      onTree (writeAtomically path c₂) t := by
  obtain ⟨t₁, source, target, hroom, hwrite⟩ := exists_room h
  rw [hwrite, hwrite]
  refine ⟨rfl, hroom.read_written c₁, ?_⟩
  rw [onTree_of_room (hroom.again c₁), written_written]

end Files

end Upkeep
