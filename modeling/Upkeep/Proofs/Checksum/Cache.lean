import Upkeep.Checksum.Service
import Upkeep.Proofs.Inquiry

/-!
# What the service remembers of an artifact

The digest of an artifact is put into its slot by the first lookup that comes to one, and it stays
there. So what any lookup of an artifact came to can be read off the memory afterwards.

* `asks_search`: what a search may ask.
* `resolve_cached`: **an answer is what the slot of the artifact holds** from then on.
-/

namespace Upkeep.Checksum

open Inquiry Once

/-! ### What a search asks -/

variable {s : Service} {r : Request} {P : Once.Question Slot Slot.Content Source → Prop}

/-- A property that all questions of a search have: the only slots that are entered are those of the listings
that may have the artifact and that of the local listing, and the only file that is read is the local listing. -/
structure Permits (s : Service) (r : Request) (P : Once.Question Slot Slot.Content Source → Prop) : Prop where
  enterListing : ∀ url ∈ r.listings, P (.enter (.listing url))
  enterLocal : P (.enter .localListing)
  leaveListing : ∀ url c, P (.leave (.listing url) c)
  leaveLocal : ∀ c, P (.leave .localListing c)
  text : ∀ url, P (.outside (.text url))
  sha512 : ∀ url, P (.outside (.sha512 url))
  file : ∀ path, s.checksumsFile = some path → P (.outside (.file path))

section

variable (hP : Permits s r P)

include hP

theorem asks_listing {url : String} (hurl : url ∈ r.listings) : (listing url).Asks P := by
  refine asks_once' (hP.enterListing url hurl) (hP.leaveListing url) ⟨hP.text url, ?_⟩
  exact fun (x : Except Failure (Option String)) => by rcases x with _ | _ | _ <;> trivial

theorem asks_inListing (file : String) {url : String} (hurl : url ∈ r.listings) :
    (inListing file url).Asks P :=
  (asks_listing hP hurl).bind fun _ => trivial

theorem asks_inSidecar (url : String) : (inSidecar url).Asks P :=
  ⟨hP.text url, fun (x : Except Failure (Option String)) => by rcases x with _ | _ | _ <;> trivial⟩

theorem asks_ofArtifact (url : String) : (ofArtifact url).Asks P :=
  ⟨hP.sha512 url, fun (x : Except Failure (Option String)) => by rcases x with _ | _ <;> trivial⟩

theorem asks_places : ∀ place ∈ places s r, place.Asks P := by
  intro place hp
  rcases List.mem_append.1 hp with hp | hp
  · rcases List.mem_append.1 hp with hp | hp
    · obtain ⟨url, hurl, rfl⟩ := List.mem_map.1 hp
      exact asks_inListing hP _ hurl
    · rw [List.mem_singleton.1 hp]
      exact asks_inSidecar hP _
  · split at hp
    · rw [List.mem_singleton.1 hp]
      exact asks_ofArtifact hP _
    · simp at hp

omit hP in
theorem asks_firstOf {l : List (Lookup (Option String))} (h : ∀ place ∈ l, place.Asks P) :
    (firstOf l).Asks P := by
  induction l with
  | nil => trivial
  | cons place rest ih =>
    refine (h place (by simp)).bind fun x => ?_
    cases x with
    | some digest => trivial
    | none => exact ih fun p hp => h p (by simp [hp])

theorem asks_inLocalListing (url : String) : (inLocalListing s url).Asks P := by
  unfold inLocalListing
  cases hpath : s.checksumsFile with
  | none => trivial
  | some path =>
    have hread : (readListing path).Asks P :=
      ⟨hP.file path hpath, fun (x : Except FileError String) => by rcases x with _ | _ <;> trivial⟩
    refine (asks_once hP.enterLocal hP.leaveLocal hread).bind fun x => ?_
    rcases x with _ | _ <;> trivial

/-- What a search asks. -/
theorem asks_search : (search s r).Asks P := by
  refine (asks_inLocalListing hP r.url).bind fun x => ?_
  rcases x with _ | _ | _
  · trivial
  · exact (asks_firstOf (asks_places hP)).bind fun _ => trivial
  · trivial

end

/-- A question that leaves the slots of all artifacts as they are. -/
def KeepsDigests (q : Once.Question Slot Slot.Content Source) : Prop :=
  ∀ url c, q ≠ .leave (.digest url) c

theorem permits_keepsDigests (s : Service) (r : Request) : Permits s r KeepsDigests := by
  constructor <;> simp [KeepsDigests]

/-- A question for a file is one for the local listing. -/
def ReadsLocal (s : Service) (q : Once.Question Slot Slot.Content Source) : Prop :=
  ∀ path, q = .outside (.file path) → s.checksumsFile = some path

/-- A lookup reads no file but the local listing. -/
theorem asks_readsLocal (s : Service) (r : Request) : (resolve s r).Asks (ReadsLocal s) := by
  have hP : Permits s r (ReadsLocal s) := by constructor <;> simp [ReadsLocal]
  exact asks_once (by simp [ReadsLocal]) (by simp [ReadsLocal]) (asks_search hP)

/-! ### The memory after a lookup -/

variable {R : (q : Source) → q.Answer → Prop} {m m' : Findings} {a : Except Failure (Option String)}

/-- Everything that was found out about artifacts is still known. -/
def KeepsFound (m m' : Findings) : Prop :=
  ∀ url c, cached? m url = some c → cached? m' url = some c

/-- **An answer is what the slot of the artifact holds** from then on. -/
theorem resolve_cached (h : (alone (resolve s r) m).Yields R (a, m')) :
    KeepsFound m m' ∧ ∀ c, a = .ok c → cached? m' r.url = some c := by
  rcases yields_once h with ⟨c, hc, rfl, rfl⟩ | ⟨hnone, m₁, hsearch, rfl⟩
  · -- the slot was filled before, and nothing is asked
    refine ⟨fun _ _ h => h, fun c' hc' => ?_⟩
    rw [← Except.ok.inj hc']
    exact hc
  · -- it was empty, and no search touches the slot of an artifact before it is over
    have hframe (url : String) : m₁.get? (.digest url) = m.get? (.digest url) :=
      alone_frame ((asks_search (permits_keepsDigests s r)).mono fun q hq => hq url) hsearch
    refine ⟨fun url c hc => ?_, ?_⟩
    · have hne : Slot.digest url ≠ .digest r.url := by
        intro heq
        obtain rfl := Slot.digest.inj heq
        cases hnone.symm.trans hc
      exact (Memory.get_put_of_ne m₁ hne _).trans ((hframe url).trans hc)
    · rintro c rfl
      exact Memory.get_put_self _ _ _

end Upkeep.Checksum
