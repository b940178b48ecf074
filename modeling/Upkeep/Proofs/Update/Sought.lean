import Upkeep.Proofs.Checksum.Answers
import Upkeep.Proofs.Replay
import Upkeep.Proofs.Update.Success

/-!
# Digests that an engine looks for

What an engine knows of an artifact was found in a lookup of it, by this run or by an earlier one. So its digests
are always those that a service could find which knows nothing, and a run fails by none of them as long as the
local listing can be read.

* `MayFind.eq_of_listed`: what the local listing has for an artifact is its digest.
* `Engine.holds_run_sought`: **a run of an engine** whose local listing can be read.
-/

namespace Upkeep

open Update Once Inquiry Manifest

namespace Checksum

variable {s : Service} {R : (q : Source) → q.Answer → Prop} {r : Request} {m : Findings} {url : String}

/-- What lookups rely on when a digest is always looked for under the URL of its artifact. -/
abbrev sought (s : Service) (R : (q : Source) → q.Answer → Prop) := finding s R fun url r => r.url = url

theorem holds_resolve_sought (r : Request) (hm : (sought s R).Fits m) :
    (alone (resolve s r) m).Holds R (fun _ => True) fun p =>
      (∃ r', r'.url = r.url ∧ MayFind R s r' p.1) ∧ (sought s R).Fits p.2 :=
  Pact.holds_alone (fun _ _ => rfl) hm (governs_finding s R _ r)

/-- What the local listing has for an artifact is its digest. -/
theorem MayFind.eq_of_listed {path content digest : String} {a : Except Failure (Option String)}
    (h : MayFind R s r a) (hpath : s.checksumsFile = some path)
    (hfile : ∀ x : Except FileError String, R (.file path) x → x = .ok content)
    (hdigest : (Listing.parse content).get? (fileName r.url) = some digest) : a = .ok (some digest) := by
  obtain ⟨log, hwent, hlog⟩ := mayFind_iff.1 h
  rw [Went, hpath] at hwent
  obtain ⟨x, later, rfl, hgoes⟩ := hwent
  obtain rfl := hfile x (hlog ⟨.file path, x⟩ (by simp))
  rw [localAnswer, hdigest] at hgoes
  exact hgoes.2

end Checksum

namespace Engine

variable {e : Engine} {S : (q : Outside) → q.Answer → Prop} {R : (q : Checksum.Source) → q.Answer → Prop}
  {service : Checksum.Service} {known : Findings} {ds : Dependencies} {isTrial : Bool} {dfv : String}
  {path : Option String} {vars : Variables}

/-- Answers on digests that a service which knows nothing may find, and files that are written. -/
def Sought (service : Checksum.Service) (R : (q : Checksum.Source) → q.Answer → Prop) :
    (q : Question) → q.Answer → Prop
  | .digest r, (a : Except Failure (Option String)) => ∃ r', r'.url = r.url ∧ Checksum.MayFind R service r' a
  | .release _, _ => True
  | .save _ _, (a : Except Failure Unit) => a = .ok ()

/-- The local listing can be read. -/
def Readable (service : Checksum.Service) (R : (q : Checksum.Source) → q.Answer → Prop) : Prop :=
  ∀ path e, service.checksumsFile = some path → ¬ R (.file path) (.error e : Except FileError String)

theorem benign_sought (h : Readable service R) : Benign (Sought service R) where
  digest r a ha := by
    obtain ⟨r', -, hfind⟩ := ha
    cases a with
    | ok o => exact ⟨o, rfl⟩
    | error e =>
      obtain ⟨path, e', hpath, he'⟩ := hfind.exists_unreadable
      exact absurd he' (h path e' hpath)
  save _ _ _ ha := ha

section

variable (hsource : ∀ q a, S (.source q) a → R q a)
  (hsave : ∀ path text (a : Except Failure Unit), S (.save path text) a → a = .ok ())

include hsource hsave

theorem holds_handle_sought (q : Question) (hknown : (Checksum.sought service R).Fits known.digests) :
    ((handle service q).run known).Holds S (fun _ => True) fun y =>
      Sought service R q y.1 ∧ (Checksum.sought service R).Fits y.2.digests := by
  cases q with
  | digest r =>
    have hlookup : (ofDigests (alone (Checksum.resolve service r) known.digests)).Holds S (fun _ => True) _ :=
      (Checksum.holds_resolve_sought r hknown).of_passed fun q _ => ⟨trivial, hsource q⟩
    exact holds_bind (hlookup.mono fun p hp => hp)
  | release k => exact holds_bind (x := ofReleases _) ((holds_true _).mono fun _ _ => ⟨trivial, hknown⟩)
  | save path text => exact ⟨trivial, fun a ha => ⟨hsave path text a ha, hknown⟩⟩

/-- **A run of an engine** over a manifest that was written for its variables. If the local listing can be read and
the file written, the run succeeds, and the engine knows in the end what lookups have found. -/
theorem holds_run_sought (hread : Readable (Engine.service e.settings) R)
    (hknown : (Checksum.sought (Engine.service e.settings) R).Fits e.findings.digests) (hplain : Unescaped vars)
    (hdfv : dockerfileVersion e.settings ds = .ok dfv) :
    (e.run ds isTrial (rendered path vars)).Holds S (fun _ => True) fun y =>
      (∃ report, y.1.2 = .ok report) ∧
        (Checksum.sought (Engine.service e.settings) R).Fits y.2.findings.digests := by
  have hrun : (Update.run e.settings ds isTrial (rendered path vars)).Holds
      (Sought (Engine.service e.settings) R) (fun _ => True) fun r => ∃ report, r.2 = .ok report :=
    holds_run_unescaped (benign_sought hread) hplain hdfv
  exact holds_bind (hrun.of_perform
    (I := fun known : Findings => (Checksum.sought (Engine.service e.settings) R).Fits known.digests)
    (fun q _ _ hknown => holds_handle_sought hsource hsave q hknown) hknown)

end

end Engine

end Upkeep
