import Upkeep.Proofs.Checksum.Cache
import Upkeep.Proofs.Files.AtomicWrite
import Upkeep.Proofs.Update.Requests

/-!
# The file of a manifest

A run writes the manifest to its file after each change, unless it is a trial. The file, the text and the
store are three copies, and a run may fail at any of its variables; still the file and the text are the same
whenever it ends. A trial differs in the file only: it asks the same of everybody else, and comes to the same.

* `onDisk`: the answers to an engine that works next to a tree of files.
* `silent`: a run in which every write is taken for granted; `perform_silent_run`: **that is a trial**.
* `disk_agrees`: **two runs agree** when one of them writes to the file and the other does not.
* `steps_saved`: the file holds the text of the manifest, variable by variable.
* `run_saved`: **the file after a run**, and the trial next to it.
-/

namespace Upkeep

open Engine Once Update
open Inquiry (Asks Yields Any yields_bind yields_pure yields_done)

/-! ### An engine next to a tree of files -/

/-- The text of a file. -/
def FileTree.readText (t : FileTree) (path : String) : Except FileError String :=
  (t.read path).bind fun b => b.text?.elim (.error .notText) .ok

/-- The answer to a question that changes no file: files are read in the tree, and others are asked for
the rest. -/
def aside (t : FileTree) : (q : Outside) → Inquiry Outside Outside.Answer q.Answer
  | .source (.file path) => Inquiry.done (t.readText path)
  | q => Inquiry.ask q Inquiry.done

/-- The answers to an engine that works next to a tree of files. -/
def onDisk : (q : Outside) → StateT FileTree (Inquiry Outside Outside.Answer) q.Answer
  | .save path text => fun t =>
    Inquiry.done (Files.onTree (Files.writeAtomically path (.ofText text)) t)
  | q => fun t => do return (← aside t q, t)

/-- A run of an engine next to a tree of files. -/
def Engine.runOnDisk (e : Engine) (ds : Dependencies) (isTrial : Bool) (m : Manifest) (t : FileTree) :
    Inquiry Outside Outside.Answer (((Manifest × Except Failure Update.Report) × Engine) × FileTree) :=
  ((e.run ds isTrial m).perform onDisk).run t

variable {α : Type} {svc : Checksum.Service} {t t' : FileTree} {known known' : Findings}

/-- A question that changes no file and reads none but the local listing. -/
structure Aside (svc : Checksum.Service) (q : Outside) : Prop where
  save : ∀ path text, q ≠ .save path text
  file : ∀ path, q = .source (.file path) → svc.checksumsFile = some path

theorem perform_onDisk {x : Inquiry Outside Outside.Answer α} (h : x.Asks (Aside svc)) :
    (x.perform onDisk).run t = do return (← x.perform (aside t), t) := by
  induction x with
  | done a => rfl
  | ask q next ih =>
    have hq : (onDisk q).run t = do return (← aside t q, t) := by
      cases q with
      | save path text => exact absurd rfl (h.1.save path text)
      | source q | release k => rfl
    rw [Inquiry.perform, StateT.run_bind, hq, Inquiry.perform]
    simp only [bind_assoc, pure_bind]
    exact bind_congr fun a => ih a (h.2 a)

/-- The files that matter are the same in two trees. -/
theorem perform_aside_congr {x : Inquiry Outside Outside.Answer α} (h : x.Asks (Aside svc))
    (hread : ∀ path, svc.checksumsFile = some path → t'.readText path = t.readText path) :
    x.perform (aside t') = x.perform (aside t) := by
  induction x with
  | done a => rfl
  | ask q next ih =>
    have hq : aside t' q = aside t q := by
      cases q with
      | save path text => exact absurd rfl (h.1.save path text)
      | release k => rfl
      | source q =>
        cases q with
        | text url | sha512 url => rfl
        | file path => exact congrArg Inquiry.done (hread path (h.1.file path rfl))
    rw [Inquiry.perform, Inquiry.perform, hq]
    exact bind_congr fun a => ih a (h.2 a)

theorem asks_handle {q : Question} (hq : ∀ path text, q ≠ .save path text) :
    ((handle svc q).run known).Asks (Aside svc) := by
  cases q with
  | digest r =>
    have hlookup : (alone (Checksum.resolve svc r) known.digests).Asks fun q =>
        ∀ path, q = .file path → svc.checksumsFile = some path := by
      refine asks_alone ((Checksum.asks_readsLocal svc r).mono fun q hq q' heq path hpath => ?_)
      exact hq path (hpath ▸ heq)
    refine Asks.bind (hlookup.of_passed fun q hq => ⟨⟨by simp, fun path heq => ?_⟩, fun _ => trivial⟩)
      fun _ => trivial
    exact hq path (Outside.source.inj heq)
  | release k =>
    refine Asks.bind (x := ofReleases _) ?_ fun _ => trivial
    exact (Inquiry.asks_true _).of_passed fun q _ => ⟨⟨by simp, by simp⟩, fun _ => trivial⟩
  | save path text => exact absurd rfl (hq path text)

/-- The answers to an update that is made by an engine next to a tree of files. -/
def disk (svc : Checksum.Service) (q : Question) :
    StateT (Findings × FileTree) (Inquiry Outside Outside.Answer) q.Answer := fun p => do
  let r ← (((handle svc q).run p.1).perform onDisk).run p.2
  return (r.1.1, (r.1.2, r.2))

/-- Work that is handled twice, with a state for each time. -/
theorem perform_disk (x : Job α) :
    (((x.perform (handle svc)).run known).perform onDisk).run t = do
      let r ← (x.perform (disk svc)).run (known, t)
      return ((r.1, r.2.1), r.2.2) := by
  induction x generalizing known t with
  | done a => rfl
  | ask q next ih =>
    rw [Inquiry.perform, StateT.run_bind, Inquiry.perform_bind, StateT.run_bind, Inquiry.perform,
      StateT.run_bind]
    show _ = (((((handle svc q).run known).perform onDisk).run t >>= fun r =>
      pure (r.1.1, (r.1.2, r.2))) >>= _) >>= _
    simp only [bind_assoc, pure_bind]
    exact bind_congr fun r => ih r.1.1

theorem runOnDisk_eq (e : Engine) (ds : Dependencies) (isTrial : Bool) (m : Manifest) :
    e.runOnDisk ds isTrial m t = do
      let r ← ((Update.run e.settings ds isTrial m).perform (disk (service e.settings))).run
        (e.findings, t)
      return ((r.1, { e with findings := r.2.1 }), r.2.2) := by
  unfold runOnDisk Engine.run Engine.perform
  rw [Inquiry.perform_bind, StateT.run_bind, perform_disk]
  simp only [bind_assoc, pure_bind]
  rfl

/-- A question that does not lead to a file. -/
def NoSave (q : Question) : Prop := ∀ path text, q ≠ .save path text

theorem run_disk {q : Question} (hq : NoSave q)
    (hread : ∀ path, svc.checksumsFile = some path → t'.readText path = t.readText path) :
    (disk svc q).run (known, t') = do
      let r ← ((handle svc q).run known).perform (aside t)
      return (r.1, (r.2, t')) := by
  show (((handle svc q).run known).perform onDisk).run t' >>= _ = _
  rw [perform_onDisk (asks_handle hq), perform_aside_congr (asks_handle hq) hread]
  simp only [bind_assoc, pure_bind]

theorem run_disk_save {path text : String} {next : (Question.save path text).Answer → Job α} :
    ((Inquiry.ask (.save path text) next).perform (disk svc)).run (known, t) =
      ((next (Files.onTree (Files.writeAtomically path (.ofText text)) t).1).perform (disk svc)).run
        (known, (Files.onTree (Files.writeAtomically path (.ofText text)) t).2) := rfl

theorem run_disk_askSave {path text : String} :
    ((askSave path text).perform (disk svc)).run (known, t) =
      pure ((Files.onTree (Files.writeAtomically path (.ofText text)) t).1,
        (known, (Files.onTree (Files.writeAtomically path (.ofText text)) t).2)) := rfl

/-- Work that does not lead to a file leaves the tree as it is. -/
theorem tree_of_noSave {x : Job α} {a : α} {known' : Findings} {R : (q : Outside) → q.Answer → Prop}
    (hx : x.Asks NoSave) (h : ((x.perform (disk svc)).run (known, t)).Yields R (a, (known', t'))) :
    t' = t := by
  induction x generalizing known with
  | done b => exact congrArg (·.2.2) (yields_pure.1 h)
  | ask q next ih =>
    rw [Inquiry.perform, StateT.run_bind, run_disk hx.1 (fun _ _ => rfl)] at h
    simp only [bind_assoc, pure_bind] at h
    obtain ⟨r, -, hnext⟩ := yields_bind.1 h
    exact ih r.1 (hx.2 r.1) hnext

/-! ### A trial -/

/-- Takes every write for granted. -/
def silent : (q : Question) → Job q.Answer
  | .save _ _ => Inquiry.done (.ok () : Except Failure Unit)
  | q => Inquiry.ask q Inquiry.done

theorem asks_silent (q : Question) : (silent q).Asks NoSave := by
  cases q with
  | save path text => trivial
  | digest r | release k => exact ⟨by simp [NoSave], fun _ => trivial⟩

theorem perform_silent {x : Job α} (hx : x.Asks NoSave) : x.perform silent = x := by
  induction x with
  | done a => rfl
  | ask q next ih =>
    have hq : silent q = .ask q .done := by
      cases q with
      | save path text => exact absurd rfl (hx.1 path text)
      | digest r | release k => rfl
    rw [Inquiry.perform, hq]
    exact congrArg (Inquiry.ask q) (funext fun a => ih a (hx.2 a))

section

variable {s : Settings} {ds : Dependencies} {dfv : String} {baseline : Variables} {m : Manifest}
  {p : Progress} {u : Updater} {ctx : Context} {path : String}

theorem noSave_resolve (r : Resolver) : (r.resolve ctx).Asks NoSave := by
  induction r with
  | buildVersion product | productVersion product | baseUrl | toolRef tool => trivial
  | checksum name product os arch =>
    rw [Resolver.resolve]
    split
    · trivial
    · exact asks_firstDigest.2 fun _ _ => by simp [NoSave]
  | toolAsset tool arch field => exact asks_toolAsset fun _ => by simp [NoSave]
  | gated product inner ih => exact asks_gated ih

theorem noSave_propose : (u.propose ctx).Asks NoSave := by
  unfold Updater.propose
  split
  · trivial
  · split_ifs
    · trivial
    · exact (noSave_resolve _).bind fun _ => trivial

theorem perform_silent_save (m : Manifest) : (Update.save m).perform silent = pure (.ok ()) := by
  unfold Update.save
  split <;> rfl

theorem perform_silent_apply (proposal : Proposal) :
    (p.apply ⟨s, ds, dfv, baseline, false⟩ proposal).perform silent =
      p.apply ⟨s, ds, dfv, baseline, true⟩ proposal := by
  unfold Progress.apply
  split
  · rfl
  · rfl
  · dsimp only
    rw [if_neg (by simp), if_pos rfl, Inquiry.perform_bind, perform_silent_save]
    rfl

theorem perform_silent_step :
    (p.step ⟨s, ds, dfv, baseline, false⟩ u).perform silent =
      p.step ⟨s, ds, dfv, baseline, true⟩ u := by
  unfold Progress.step
  rw [Inquiry.perform_bind, perform_silent noSave_propose]
  refine bind_congr fun r => ?_
  rcases r with ⟨notes, e | proposal⟩
  · rfl
  · dsimp only
    split_ifs
    · exact perform_silent_apply _
    · rfl

theorem perform_silent_steps (us : List Updater) :
    (Progress.steps ⟨s, ds, dfv, baseline, false⟩ us p).perform silent =
      Progress.steps ⟨s, ds, dfv, baseline, true⟩ us p := by
  induction us generalizing p with
  | nil => rfl
  | cons u us ih =>
    rw [Progress.steps, Progress.steps, Inquiry.perform_bind, perform_silent_step]
    refine bind_congr fun r => ?_
    rcases r with ⟨p', e | _⟩
    · rfl
    · exact ih

/-- **A run in which every write is taken for granted is a trial.** -/
theorem perform_silent_run :
    (Update.run s ds false m).perform silent = Update.run s ds true m := by
  unfold Update.run
  split
  · rfl
  · dsimp only
    rw [Inquiry.perform_bind, perform_silent_steps]
    rfl

theorem noSave_trial : (Update.run s ds true m).Asks NoSave := by
  rw [← perform_silent_run]
  exact (Inquiry.asks_true _).of_passed fun q _ => asks_silent q

/-! ### What a run writes -/

/-- A question that leads to no other file than this one. -/
def SavesTo (path : String) (q : Question) : Prop := ∀ path' text, q = .save path' text → path' = path

theorem holds_propose_savesTo :
    (u.propose ctx).Holds Any (SavesTo path) fun _ => True :=
  (noSave_propose.mono fun _ hq path' text heq => absurd heq (hq path' text)).holds

variable {plan : Plan}

theorem holds_apply_savesTo {proposal : Proposal} (hp : p.manifest.path = some path) :
    (p.apply plan proposal).Holds Any (SavesTo path) fun r => r.1.manifest.path = some path := by
  unfold Progress.apply
  split
  · exact hp
  · exact hp
  · rename_i m hm
    have hpath := (Manifest.path_of_update hm).trans hp
    dsimp only
    split_ifs
    · exact hpath
    · refine Inquiry.holds_bind ?_
      unfold Update.save
      rw [hpath]
      exact ⟨fun path' text heq => (Question.save.inj heq).1.symm, fun _ _ => hpath⟩

theorem holds_step_savesTo (hp : p.manifest.path = some path) :
    (p.step plan u).Holds Any (SavesTo path) fun r => r.1.manifest.path = some path := by
  refine Inquiry.holds_bind (holds_propose_savesTo.mono fun r _ => ?_)
  rcases r with ⟨notes, e | proposal⟩
  · exact hp
  · dsimp only
    split_ifs
    · exact holds_apply_savesTo hp
    · exact hp

theorem holds_steps_savesTo {us : List Updater} (hp : p.manifest.path = some path) :
    (Progress.steps plan us p).Holds Any (SavesTo path) fun r => r.1.manifest.path = some path := by
  induction us generalizing p with
  | nil => exact hp
  | cons u us ih =>
    refine Inquiry.holds_bind ((holds_step_savesTo hp).mono fun r hr => ?_)
    rcases r with ⟨p', e | _⟩
    · exact hr
    · exact ih hr

/-- A run leads to no other file than that of the manifest. -/
theorem asks_run_savesTo {isTrial : Bool} (hm : m.path = some path) :
    (Update.run s ds isTrial m).Asks (SavesTo path) := by
  unfold Update.run
  split
  · trivial
  · exact (holds_steps_savesTo (p := ⟨m, [], []⟩) hm).asks.bind fun _ => trivial

end

/-! ### The two runs next to a tree of files -/

/-- A file that can be written, and that is not the local listing: what is read of the listing stays the
same, whatever is written. -/
structure Writable (svc : Checksum.Service) (path : String) (t : FileTree) : Prop where
  succeeds : ∃ c, (Files.onTree (Files.writeAtomically path c) t).1 = .ok ()
  apart : ∀ file, svc.checksumsFile = some file → ∀ c,
    (Files.onTree (Files.writeAtomically path c) t).2.read file = t.read file

/-- A tree in which no other file may have been written than this one. -/
def Later (path : String) (t t' : FileTree) : Prop :=
  t' = t ∨ ∃ c, t' = (Files.onTree (Files.writeAtomically path c) t).2

variable {path : String}

theorem Writable.write (h : Writable svc path t) (ht : Later path t t') (c : Bytes) :
    Files.onTree (Files.writeAtomically path c) t' =
      (.ok (), (Files.onTree (Files.writeAtomically path c) t).2) := by
  obtain ⟨c₀, hc₀⟩ := h.succeeds
  have hfirst : Files.onTree (Files.writeAtomically path c) t =
      (.ok (), (Files.onTree (Files.writeAtomically path c) t).2) :=
    Prod.ext (Files.write_again hc₀ c c).1 rfl
  rcases ht with rfl | ⟨c₁, rfl⟩
  · exact hfirst
  · rw [(Files.write_again hc₀ c₁ c).2.2]
    exact hfirst

theorem Writable.read (h : Writable svc path t) (c : Bytes) :
    (Files.onTree (Files.writeAtomically path c) t).2.read path = .ok c := by
  obtain ⟨c₀, hc₀⟩ := h.succeeds
  exact (Files.write_again hc₀ c c).2.1

theorem Writable.readText (h : Writable svc path t) (ht : Later path t t') {file : String}
    (hfile : svc.checksumsFile = some file) : t'.readText file = t.readText file := by
  unfold FileTree.readText
  rcases ht with rfl | ⟨c, rfl⟩
  · rfl
  · rw [h.apart file hfile]

/-- What work comes to, apart from the tree that it leaves. -/
def besides (r : α × (Findings × FileTree)) : α × Findings := (r.1, r.2.1)

/-- **Two runs agree** when one of them writes to the file and the other takes the writes for granted: they
ask the same, and come to the same. -/
theorem disk_agrees (h : Writable svc path t) {x : Job α} (hx : x.Asks (SavesTo path))
    (ht : Later path t t') :
    besides <$> (x.perform (disk svc)).run (known, t') =
      besides <$> ((x.perform silent).perform (disk svc)).run (known, t) := by
  induction x generalizing known t' with
  | done a => rfl
  | ask q next ih =>
    by_cases hq : NoSave q
    · have hsilent : silent q = .ask q .done := by
        cases q with
        | save path text => exact absurd rfl (hq path text)
        | digest r | release k => rfl
      have hlhs : ((Inquiry.ask q next).perform silent).perform (disk svc) =
          disk svc q >>= fun a => ((next a).perform silent).perform (disk svc) := by
        rw [Inquiry.perform, hsilent]
        rfl
      rw [hlhs, Inquiry.perform, StateT.run_bind, StateT.run_bind,
        run_disk hq fun file hfile => h.readText ht hfile, run_disk hq fun _ _ => rfl]
      simp only [map_bind, bind_assoc, pure_bind]
      exact bind_congr fun r => ih r.1 (hx.2 r.1) ht
    · obtain ⟨path', text, rfl⟩ : ∃ path' text, q = .save path' text := by
        simpa [NoSave] using hq
      obtain rfl := hx.1 path' text rfl
      rw [run_disk_save, h.write ht]
      exact ih (.ok ()) (hx.2 (.ok ())) (.inr ⟨_, rfl⟩)

/-! ### The file after a run -/

/-- The file holds the text of the manifest, and no other file may have been written. -/
structure Kept (path : String) (t : FileTree) (m : Manifest) (t' : FileTree) : Prop where
  file : m.path = some path
  later : Later path t t'
  text : t'.read path = .ok (.ofText m.text)

section

variable {R : (q : Outside) → q.Answer → Prop} {s : Settings} {ds : Dependencies} {plan : Plan}
  {p p' : Progress} {u : Updater} {outcome : Except Failure Unit} {t'' : FileTree}

theorem apply_saved {proposal : Proposal} (hw : Writable svc path t) (hplan : plan.isTrial = false)
    (hk : Kept path t p.manifest t')
    (h : (((p.apply plan proposal).perform (disk svc)).run (known, t')).Yields R
      ((p', outcome), (known', t''))) : Kept path t p'.manifest t'' := by
  have hsame {r : Progress × Except Failure Unit} (hr : r.1.manifest = p.manifest)
      (hdone : ((p', outcome), (known', t'')) = (r, (known, t'))) : Kept path t p'.manifest t'' := by
    obtain ⟨rfl, hstate⟩ := Prod.mk.inj hdone
    obtain ⟨-, rfl⟩ := Prod.mk.inj hstate
    exact hr ▸ hk
  unfold Progress.apply at h
  split at h
  · exact hsame rfl (yields_pure.1 h)
  · exact hsame rfl (yields_pure.1 h)
  · rename_i m hm
    have hpath := (Manifest.path_of_update hm).trans hk.file
    dsimp only at h
    rw [if_neg (by simp [hplan]), Inquiry.perform_bind, StateT.run_bind] at h
    unfold Update.save at h
    rw [hpath] at h
    dsimp only at h
    obtain ⟨r, hsave, hdone⟩ := yields_bind.1 h
    rw [Inquiry.perform_bind, StateT.run_bind] at hsave
    obtain ⟨r', hwritten, hmapped⟩ := yields_bind.1 hsave
    rw [run_disk_askSave, hw.write hk.later] at hwritten
    obtain rfl := yields_pure.1 hwritten
    obtain rfl := yields_pure.1 hmapped
    cases yields_pure.1 hdone
    exact ⟨hpath, .inr ⟨_, rfl⟩, hw.read _⟩

/-- **The file holds the text of the manifest**, also when the run ends at this variable. -/
theorem step_saved (hw : Writable svc path t) (hplan : plan.isTrial = false)
    (hk : Kept path t p.manifest t')
    (h : (((p.step plan u).perform (disk svc)).run (known, t')).Yields R
      ((p', outcome), (known', t''))) : Kept path t p'.manifest t'' := by
  unfold Progress.step at h
  rw [Inquiry.perform_bind, StateT.run_bind] at h
  obtain ⟨⟨⟨notes, proposal⟩, known₁, t₁⟩, hpropose, hnext⟩ := yields_bind.1 h
  -- what a variable is to get is worked out without a file
  obtain rfl := tree_of_noSave noSave_propose hpropose
  cases proposal with
  | error e =>
    cases yields_pure.1 hnext
    exact hk
  | ok proposal =>
    dsimp only at hnext
    split at hnext
    · exact apply_saved (p := { p with notes := p.notes ++ notes }) hw hplan hk hnext
    · cases yields_pure.1 hnext
      exact hk

theorem steps_saved {us : List Updater} (hw : Writable svc path t) (hplan : plan.isTrial = false)
    (hk : Kept path t p.manifest t')
    (h : (((Progress.steps plan us p).perform (disk svc)).run (known, t')).Yields R
      ((p', outcome), (known', t''))) : Kept path t p'.manifest t'' := by
  induction us generalizing p known t' with
  | nil =>
    cases yields_pure.1 h
    exact hk
  | cons u us ih =>
    rw [Progress.steps, Inquiry.perform_bind, StateT.run_bind] at h
    obtain ⟨⟨⟨p₁, outcome₁⟩, known₁, t₁⟩, hstep, hnext⟩ := yields_bind.1 h
    have hk₁ := step_saved hw hplan hk hstep
    cases outcome₁ with
    | error e =>
      cases yields_pure.1 hnext
      exact hk₁
    | ok _ => exact ih hk₁ hnext

theorem run_kept {m m' : Manifest} {result : Except Failure Report} (hw : Writable svc path t)
    (hk : Kept path t m t')
    (h : (((Update.run s ds false m).perform (disk svc)).run (known, t')).Yields R
      ((m', result), (known', t''))) : Kept path t m' t'' := by
  unfold Update.run at h
  split at h
  · obtain ⟨heq, hstate⟩ := Prod.mk.inj (yields_pure.1 h)
    obtain ⟨rfl, -⟩ := Prod.mk.inj heq
    obtain ⟨-, rfl⟩ := Prod.mk.inj hstate
    exact hk
  · rw [Inquiry.perform_bind, StateT.run_bind] at h
    obtain ⟨⟨⟨p, outcome⟩, known₁, t₁⟩, hsteps, hdone⟩ := yields_bind.1 h
    have hk₁ := steps_saved (p := ⟨m, [], []⟩) hw rfl hk hsteps
    cases yields_pure.1 hdone
    exact hk₁

end

/-- **The file after a run**, and the trial next to it. The file of the manifest holds its text, it can be
written, and the local listing is another file. Then, whatever others answer and whether the run succeeds or
fails: a run leaves the file with the text of the manifest that it leaves; a trial leaves all files as they
are; and both ask the same of others and come to the same manifest, with the same report or failure. -/
theorem run_saved (e : Engine) (ds : Dependencies) (m : Manifest) (t : FileTree) (path : String)
    (hpath : m.path = some path) (hfile : t.read path = .ok (.ofText m.text))
    (hw : Writable (service e.settings) path t) :
    (∀ result t', (e.runOnDisk ds false m t).Yields Any (result, t') →
      t'.read path = .ok (.ofText result.1.1.text)) ∧
    (∀ result t', (e.runOnDisk ds true m t).Yields Any (result, t') → t' = t) ∧
    Prod.fst <$> e.runOnDisk ds false m t = Prod.fst <$> e.runOnDisk ds true m t := by
  simp only [runOnDisk_eq]
  refine ⟨fun result t' h => ?_, fun result t' h => ?_, ?_⟩
  · obtain ⟨⟨⟨m', outcome⟩, known', t₁⟩, hrun, hdone⟩ := yields_bind.1 h
    obtain ⟨rfl, rfl⟩ := Prod.mk.inj (yields_pure.1 hdone)
    exact (run_kept hw ⟨hpath, .inl rfl, hfile⟩ hrun).text
  · obtain ⟨⟨r, known', t₁⟩, hrun, hdone⟩ := yields_bind.1 h
    obtain ⟨-, rfl⟩ := Prod.mk.inj (yields_pure.1 hdone)
    exact tree_of_noSave noSave_trial hrun
  · have hasks : (Update.run e.settings ds false m).Asks (SavesTo path) := asks_run_savesTo hpath
    let svc := service e.settings
    have hagree (known : Findings) :
        besides <$> ((Update.run e.settings ds false m).perform (disk svc)).run (known, t) =
          besides <$> ((Update.run e.settings ds true m).perform (disk svc)).run (known, t) := by
      rw [← perform_silent_run]
      exact disk_agrees hw hasks (.inl rfl)
    have hfst (x : Inquiry Outside Outside.Answer
        ((Manifest × Except Failure Report) × (Findings × FileTree))) :
        (Prod.fst <$> do
          let r ← x
          return ((r.1, { e with findings := r.2.1 }), r.2.2)) =
        (fun r => (r.1, { e with findings := r.2 })) <$> (besides <$> x) := by
      simp only [map_eq_pure_bind, bind_assoc, pure_bind]
      rfl
    rw [hfst, hfst, hagree]

/-- A directory with the manifest of an older runtime and a local listing. -/
def olderTree : FileTree where
  entries := .ofList
    [(["manifest.json"], Entry.file (.ofText (Manifest.render (.ofList olderRuntime)))),
      (["digests.txt"], Entry.file (.ofText "ab12 runtime-9.0.5.zip"))]

theorem olderTree_room : olderTree.Room "manifest.json" ["manifest.tmp"] ["manifest.json"] where
  source := ⟨⟨⟨[], .name "manifest.tmp", false⟩, rfl, rfl, rfl⟩, by decide +kernel⟩
  target := ⟨⟨⟨[], .name "manifest.json", false⟩, rfl, rfl, rfl⟩, by decide +kernel⟩
  parent := by
    have hparent : Path.parent? "manifest.json" = some "" := by decide +kernel
    intro p hp hne
    exact absurd (Option.some.inj (hp.symm.trans hparent)) hne

theorem olderTree_writable : Writable (service listingEngine.settings) "manifest.json" olderTree where
  succeeds := ⟨[], by rw [Files.onTree_of_room olderTree_room]⟩
  apart file hfile c := by
    obtain rfl : "digests.txt" = file := Option.some.inj hfile
    rw [Files.onTree_of_room olderTree_room]
    exact olderTree_room.read_other ⟨⟨⟨[], .name "digests.txt", false⟩, rfl, rfl, rfl⟩, by decide +kernel⟩
      (by decide) (by decide) c

theorem run_saved_olderTree :
    let ds := Dependencies.ofList [⟨"runtime", "9.0.5"⟩]
    let m : Manifest :=
      ⟨some "manifest.json", Manifest.render (.ofList olderRuntime), .ofList olderRuntime⟩
    ∃ result t', (listingEngine.runOnDisk ds false m olderTree).Yields Any (result, t') ∧
      result.1.1.vars["runtime|9.0|build-version"]? = some "9.0.5" ∧
      t'.read "manifest.json" = .ok (.ofText result.1.1.text) ∧
      Prod.fst <$> listingEngine.runOnDisk ds true m olderTree =
        Prod.fst <$> listingEngine.runOnDisk ds false m olderTree := by
  intro ds m
  have hread : olderTree.read "manifest.json" = .ok (.ofText m.text) := by rfl
  obtain ⟨hreal, htrial, hagree⟩ := run_saved listingEngine ds m olderTree "manifest.json" rfl hread
    olderTree_writable
  have hrun : (listingEngine.runOnDisk ds false m olderTree).Yields Any
      ((listingEngine.runOnDisk ds false m olderTree).result oneDigest) :=
    Inquiry.yields_result (fun _ => trivial) _
  have hdone : ((listingEngine.runOnDisk ds false m olderTree).result
      oneDigest).1.1.1.vars["runtime|9.0|build-version"]? = some "9.0.5" := by decide +kernel
  exact ⟨_, _, hrun, hdone, hreal _ _ hrun, hagree.symm⟩

end Upkeep
