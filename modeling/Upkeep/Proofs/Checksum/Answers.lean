import Upkeep.Proofs.Checksum.Exchanges
import Upkeep.Proofs.Once.Pact

/-!
# What lookups may come to

What lookups have found out answers for other lookups, with other requests. It all goes back to what was asked
from the outside: whatever is found in a slot, some lookup on a service that knows nothing may come to, by the
same answers. So nothing is found with a history of earlier lookups, or next to other ones, that could not be
found without.

* `MayFind`: what a lookup may come to on a service that knows nothing.
* `finding`: **what lookups rely on and what they grant**.
* `governs_finding`: every lookup keeps to it.
* `holds_resolve_alone`: what a lookup comes to that runs alone.
-/

namespace Upkeep.Checksum

open Inquiry Once

variable {R : (q : Source) → q.Answer → Prop} {s : Service} {r : Request} {leads : String → Request → Prop}
  {file : String} {p : Place} {ps : List Place} {a : Except Failure (Option String)} {m : Findings}

/-- What a lookup may come to on a service that knows nothing, by answers that a relation allows. -/
def MayFind (R : (q : Source) → q.Answer → Prop) (s : Service) (r : Request)
    (a : Except Failure (Option String)) : Prop :=
  ∃ m, (alone (resolve s r) .empty).Yields R (a, m)

theorem mayFind_iff : MayFind R s r a ↔ ∃ log, Went s r log a ∧ ∀ e ∈ log, R e.1 e.2 := by
  simp only [MayFind, yields_iff_runs, ← runs_resolve]
  constructor
  · rintro ⟨m, log, h, hR⟩
    exact ⟨log, ⟨m, h⟩, hR⟩
  · rintro ⟨log, ⟨m, h⟩, hR⟩
    exact ⟨m, log, h, hR⟩

/-- A lookup fails only if the local listing cannot be read. -/
theorem MayFind.exists_unreadable {e : Failure} (h : MayFind R s r (.error e)) :
    ∃ path e', s.checksumsFile = some path ∧ R (.file path) (.error e') := by
  obtain ⟨log, hwent, hR⟩ := mayFind_iff.1 h
  unfold Went at hwent
  split at hwent
  · obtain ⟨d, ⟨⟩, -⟩ := hwent
  · rename_i path hpath
    obtain ⟨x, later, rfl, hgoes⟩ := hwent
    have hx : R (.file path) x := hR ⟨.file path, x⟩ (by simp)
    match x with
    | .error e' => exact ⟨path, e', hpath, hx⟩
    | .ok content =>
      rw [localAnswer] at hgoes
      cases hget : (Listing.parse content).get? (fileName r.url) with
      | some digest =>
        rw [hget] at hgoes
        cases hgoes.2
      | none =>
        rw [hget] at hgoes
        obtain ⟨d, ⟨⟩, -⟩ := hgoes

/-- The listing that is made of an answer; one that cannot be had is none. -/
def listed : Except Failure (Option String) → Option Listing
  | .ok (some content) => some (Listing.parse content)
  | _ => none

/-- **What lookups rely on and what they grant**: a listing is what was fetched, the local listing is what was
read, and the digest of an artifact is one that a lookup with the same URL may come to; `leads` says which. -/
def finding (s : Service) (R : (q : Source) → q.Answer → Prop) (leads : String → Request → Prop) :
    Pact Request Slot Slot.Content Source Source.Answer (Except Failure (Option String)) where
  answers := R
  fits
    | .digest url, (d : Option String) => ∃ r, leads url r ∧ MayFind R s r (.ok d)
    | .listing url, (l : Option Listing) => ∃ x, R (.text url) x ∧ l = listed x
    | .localListing, (l : Listing) =>
      ∃ path content, s.checksumsFile = some path ∧ R (.file path) (.ok content) ∧ l = Listing.parse content
  opens r slot := slot = .digest r.url → leads r.url r
  fails _ := ∃ path e, s.checksumsFile = some path ∧ R (.file path) (.error e)
  result r a := ∃ r', leads r.url r' ∧ MayFind R s r' a

/-! ### One lookup -/

section

variable {r₀ : Request}

/-- What a place has by an allowed answer, be it asked now or before. -/
theorem holds_look : (p.look file).Holds ((finding s R leads).Relies r₀) (finding s R leads).Grants
    fun d => ∃ x, R p.source x ∧ p.digest? file x = d := by
  cases p with
  | listing url =>
    have hpost (l : Option Listing) (hl : (finding s R leads).fits (.listing url) l) :
        ∃ x, R (.text url) x ∧ (Place.listing url).digest? file x = l.bind (·.get? file) := by
      obtain ⟨x, hx, rfl⟩ := hl
      exact ⟨x, hx, by rcases x with _ | _ | content <;> rfl⟩
    refine holds_bind (Pact.holds_once' hpost fun _ => ⟨trivial, fun x hx => ?_⟩)
    rcases x with e | _ | content
    · exact ⟨.error e, hx, rfl⟩
    · exact ⟨.ok none, hx, rfl⟩
    · exact ⟨.ok (some content), hx, rfl⟩
  | sidecar url =>
    refine ⟨trivial, fun x hx => ?_⟩
    rcases x with e | _ | content
    · exact ⟨.error e, hx, rfl⟩
    · exact ⟨.ok none, hx, rfl⟩
    · exact ⟨.ok (some content), hx, rfl⟩
  | artifact url =>
    refine ⟨trivial, fun x hx => ?_⟩
    rcases x with e | digest
    · exact ⟨.error e, hx, rfl⟩
    · exact ⟨.ok digest, hx, rfl⟩

/-- A search through places goes as if each were asked now. -/
theorem holds_firstOf : (firstOf (ps.map (Place.look file))).Holds ((finding s R leads).Relies r₀)
    (finding s R leads).Grants fun d => ∃ log, Tried file ps log d ∧ ∀ e ∈ log, R e.1 e.2 := by
  induction ps with
  | nil => exact ⟨[], .nowhere, by simp⟩
  | cons p ps ih =>
    refine holds_bind (holds_look.mono fun d hd => ?_)
    obtain ⟨x, hx, rfl⟩ := hd
    cases hdigest : p.digest? file x with
    | some digest => exact ⟨_, .found hdigest, by simpa using hx⟩
    | none =>
      refine ih.mono fun d hd => ?_
      obtain ⟨log, htried, hR⟩ := hd
      exact ⟨_, .missed hdigest htried, List.forall_mem_cons.2 ⟨hx, hR⟩⟩

/-- What the local listing has, be it read now or before. -/
theorem holds_inLocalListing (url : String) : (inLocalListing s url).Holds ((finding s R leads).Relies r₀)
    (finding s R leads).Grants fun found => (s.checksumsFile = none ∧ found = .ok none) ∨
      ∃ path x, s.checksumsFile = some path ∧ R (.file path) x ∧
        found = localAnswer path (fileName url) x := by
  unfold inLocalListing
  cases hpath : s.checksumsFile with
  | none => exact .inl ⟨rfl, rfl⟩
  | some path =>
    have hpost (l : Listing) (hl : (finding s R leads).fits .localListing l) :
        ∃ x, R (.file path) x ∧ Except.ok (l.get? (fileName url)) = localAnswer path (fileName url) x := by
      obtain ⟨path', content, hpath', hcontent, rfl⟩ := hl
      obtain rfl := Option.some.inj (hpath.symm.trans hpath')
      exact ⟨.ok content, hcontent, rfl⟩
    refine holds_bind (Pact.holds_once (fun l hl => ?_) fun _ => ⟨trivial, fun x hx => ?_⟩)
    · obtain ⟨x, hx, heq⟩ := hpost l hl
      exact .inr ⟨path, x, rfl, hx, heq⟩
    · match x with
      | .ok content =>
        exact ⟨fun l hl => ⟨path, content, hpath, hx, (Except.ok.inj hl).symm⟩, nofun⟩
      | .error e =>
        refine ⟨nofun, fun e' he' => ⟨⟨path, e, hpath, hx⟩, .inr ⟨path, .error e, rfl, hx, ?_⟩⟩⟩
        rw [← Except.error.inj he']
        rfl

/-- **A search** comes to what it may come to on a service that knows nothing. -/
theorem holds_search : (search s r).Holds ((finding s R leads).Relies r₀) (finding s R leads).Grants
    (MayFind R s r) := by
  rw [search_eq]
  refine holds_bind ((holds_inLocalListing r.url).mono fun found hfound => ?_)
  -- what is left goes on by what the local listing has
  have hgoes : (searchOn s r found).Holds ((finding s R leads).Relies r₀) (finding s R leads).Grants
      fun a => ∃ log, GoesOn s r found log a ∧ ∀ e ∈ log, R e.1 e.2 := by
    rcases found with e | _ | digest
    · exact ⟨[], ⟨rfl, rfl⟩, by simp⟩
    · rw [searchOn, places_eq]
      refine holds_bind (holds_firstOf.mono fun d hd => ?_)
      obtain ⟨log, htried, hR⟩ := hd
      exact ⟨log, ⟨d, rfl, htried⟩, hR⟩
    · exact ⟨[], ⟨rfl, rfl⟩, by simp⟩
  refine hgoes.mono fun a ha => mayFind_iff.2 ?_
  obtain ⟨log, hlog, hR⟩ := ha
  rcases hfound with ⟨hpath, rfl⟩ | ⟨path, x, hpath, hx, rfl⟩
  · exact ⟨log, by rwa [Went, hpath], hR⟩
  · exact ⟨⟨.file path, x⟩ :: log, by rw [Went, hpath]; exact ⟨x, log, rfl, hlog⟩,
      List.forall_mem_cons.2 ⟨hx, hR⟩⟩

end

/-- **Every lookup keeps to what lookups rely on.** -/
theorem governs_finding (s : Service) (R : (q : Source) → q.Answer → Prop)
    (leads : String → Request → Prop) : (finding s R leads).Governs (resolve s) := by
  intro r
  refine Pact.holds_once (fun d hd => hd) fun hopens => holds_search.mono fun a ha => ⟨?_, ?_⟩
  · rintro d rfl
    exact ⟨r, hopens rfl, ha⟩
  · rintro e rfl
    exact ⟨ha.exists_unreadable, r, hopens rfl, ha⟩

end Upkeep.Checksum
