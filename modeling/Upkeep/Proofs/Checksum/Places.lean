import Mathlib.Data.List.Nodup
import Upkeep.Checksum.Service
import Upkeep.Proofs.Record

/-!
# The places of a digest

The digest of an artifact is looked for in one place after the other, up to the first that has one. Each place
is a question and what is made of its answer, and no place is asked twice.

* `Request.consulted`: the versions whose listings are asked.
* `plan`: **the places of an artifact**, in the order in which they are asked.
* `alone_look`: what a place is asked.
* `Tried`, `runs_firstOf`: **how a search through places can go**.
-/

namespace Upkeep.Checksum

open Inquiry Once

/-- A place where a digest is looked for after the local listing. -/
inductive Place where
  | listing (url : String)
  | sidecar (url : String)
  | artifact (url : String)
  deriving DecidableEq, Inhabited

/-- Questions with their answers. -/
abbrev Exchanges := List ((q : Source) × q.Answer)

namespace Place

/-- What is asked in a place. -/
def source : Place → Source
  | listing url | sidecar url => .text url
  | artifact url => .sha512 url

/-- The digest that a place has for a file, by what is answered there. A place that fails has none, and so
has one that is not found. -/
def digest? (file : String) : (p : Place) → p.source.Answer → Option String
  | listing _, (x : Except Failure (Option String)) =>
    match x with
    | .ok (some content) => (Listing.parse content).get? file
    | _ => none
  | sidecar _, (x : Except Failure (Option String)) =>
    match x with
    | .ok (some content) => sidecarDigest? content
    | _ => none
  | artifact _, (x : Except Failure (Option String)) =>
    match x with
    | .ok digest => digest
    | .error _ => none

/-- Looks for the digest of a file in a place. -/
def look (file : String) : Place → Lookup (Option String)
  | listing url => inListing file url
  | sidecar url => inSidecar url
  | artifact url => ofArtifact url

end Place

/-! ### The plan of a lookup -/

/-- Whether the listing of the runtime has a product: an SDK or a part of ASP.NET. -/
def Request.WithRuntime (r : Request) : Prop :=
  "sdk".toList <+: r.product.toList ∨ "aspnet".toList <+: r.product.toList

instance (r : Request) : Decidable r.WithRuntime := inferInstanceAs (Decidable (_ ∨ _))

/-- A version that goes with others: none, if it is missing, empty or there already. -/
def further (vs : List String) (v? : Option String) : List String :=
  v?.toList.filter fun v => v ≠ "" ∧ v ∉ vs

/-- The versions whose listings are asked: that of the runtime, when its listing has the product; that of the
build; and the preview version of the runtime, or of the build when no runtime is given. -/
def Request.consulted (r : Request) : List String :=
  [if r.WithRuntime then r.runtimeVersion else none,
   r.buildVersion,
   match r.runtimeVersion with
    | some v => Version.preview? v
    | none => r.buildVersion.bind Version.preview?].foldl (fun vs v? => vs ++ further vs v?) []

/-- The listings that are asked: only public releases publish any. -/
def Request.published (r : Request) : List Place :=
  match r.baseUrl with
  | some base => if isPublicBase base then r.consulted.map fun v => .listing (listingUrl base v) else []
  | none => []

/-- **The places of an artifact**, in the order in which they are asked: the listings, the sidecar, and the
artifact itself if digests may be computed. -/
def plan (s : Service) (r : Request) : List Place :=
  r.published ++ .sidecar (sidecarUrl r.url ("sdk".toList.isPrefixOf r.product.toList))
    :: if s.computeShas then [.artifact r.url] else []

theorem isListedWithRuntime_iff (r : Request) : r.isListedWithRuntime = true ↔ r.WithRuntime := by
  simp [Request.isListedWithRuntime, Request.wantsSdk, Request.WithRuntime]

theorem mem_further {vs : List String} {v? : Option String} {v : String} :
    v ∈ further vs v? ↔ v? = some v ∧ v ≠ "" ∧ v ∉ vs := by
  simp [further]

theorem further_some (vs : List String) (v : String) :
    further vs (some v) = if v ≠ "" ∧ v ∉ vs then [v] else [] := by
  rw [further, Option.toList_some, List.filter_singleton]
  by_cases h : v ≠ "" ∧ v ∉ vs <;> simp [h]

theorem nodup_further (vs : List String) (v? : Option String) : (further vs v?).Nodup := by
  cases v? with
  | none => exact List.nodup_nil
  | some v =>
    rw [further_some]
    split <;> simp

/-- Adding versions one after the other is the same as leaving out the empty ones and then the repeated
ones. -/
theorem eraseDups_filter_append (l : List String) (vs : List (Option String)) :
    ((l ++ vs.filterMap id).filter (· ≠ "")).eraseDups =
      vs.foldl (fun vs v? => vs ++ further vs v?) (l.filter (· ≠ "")).eraseDups := by
  induction vs generalizing l with
  | nil => simp
  | cons v? vs ih =>
    have hstep : (l.filter (· ≠ "")).eraseDups ++ further (l.filter (· ≠ "")).eraseDups v? =
        ((l ++ v?.toList).filter (· ≠ "")).eraseDups := by
      cases v? with
      | none => simp [further]
      | some v =>
        rw [further_some, List.filter_append, List.eraseDups_append]
        by_cases hv : v = "" <;> by_cases hl : v ∈ l <;> simp [hv, hl, List.removeAll, List.eraseDups_cons]
    rw [List.foldl_cons, hstep, ← ih]
    cases v? <;> simp

theorem versions_eq (r : Request) : r.versions = r.consulted := by
  have hpreview : (r.runtimeVersion.or r.buildVersion).bind Version.preview? =
      match r.runtimeVersion with
      | some v => Version.preview? v
      | none => r.buildVersion.bind Version.preview? := by
    cases r.runtimeVersion <;> rfl
  rw [Request.versions, hpreview, ← List.nil_append (List.filterMap _ _), eraseDups_filter_append]
  simp only [isListedWithRuntime_iff]
  rfl

theorem nodup_consulted (r : Request) : r.consulted.Nodup := by
  have hfold (vs : List (Option String)) (l : List String) (hl : l.Nodup) :
      (vs.foldl (fun vs v? => vs ++ further vs v?) l).Nodup := by
    induction vs generalizing l with
    | nil => exact hl
    | cons v? vs ih =>
      refine ih _ (List.nodup_append.2 ⟨hl, nodup_further l v?, ?_⟩)
      rintro v hv w hw rfl
      exact (mem_further.1 hw).2.2 hv
  exact hfold _ [] List.nodup_nil

theorem listings_eq (r : Request) (file : String) :
    r.listings.map (inListing file) = r.published.map (Place.look file) := by
  rw [Request.listings, Request.published, versions_eq]
  cases r.baseUrl with
  | none => rfl
  | some base =>
    dsimp only
    split_ifs
    · simp [Place.look]
    · rfl

theorem places_eq (s : Service) (r : Request) :
    places s r = (plan s r).map (Place.look (fileName r.url)) := by
  rw [places, plan, listings_eq, List.append_assoc, List.map_append]
  split_ifs <;> rfl

theorem exists_listing_of_mem_published {r : Request} {p : Place} (hp : p ∈ r.published) :
    ∃ url, p = .listing url := by
  rw [Request.published] at hp
  split at hp
  · split_ifs at hp
    · obtain ⟨v, -, rfl⟩ := List.mem_map.1 hp
      exact ⟨_, rfl⟩
    · cases hp
  · cases hp

theorem listingUrl_injective (base : String) : Function.Injective (listingUrl base) := by
  intro v w h
  simpa [listingUrl] using h

theorem nodup_published (r : Request) : r.published.Nodup := by
  rw [Request.published]
  split
  · split_ifs
    · exact (nodup_consulted r).map fun v w h => listingUrl_injective _ (Place.listing.inj h)
    · exact List.nodup_nil
  · exact List.nodup_nil

/-- No place is asked twice. -/
theorem nodup_plan (s : Service) (r : Request) : (plan s r).Nodup := by
  refine List.nodup_append.2 ⟨nodup_published r, by split_ifs <;> simp, ?_⟩
  rintro p hp q hq rfl
  obtain ⟨url, rfl⟩ := exists_listing_of_mem_published hp
  split_ifs at hq <;> simp at hq

/-! ### A search through places -/

variable {s : Service} {r : Request} {m m' : Findings} {file : String} {p : Place} {ps : List Place}
  {log : Exchanges} {d : Option String}

/-- A place that was not asked before. -/
def Place.IsNew (m : Findings) : Place → Prop
  | listing url => m.get? (.listing url) = none
  | _ => True

/-- What is known after a place was asked: a listing is kept. -/
def Place.keep (m : Findings) : (p : Place) → p.source.Answer → Findings
  | listing url, (x : Except Failure (Option String)) =>
    m.put (.listing url) (some (match x with
      | .ok (some content) => some (Listing.parse content)
      | _ => none))
  | _, _ => m

/-- **What a new place is asked**, and what is made of the answer. -/
theorem alone_look (hp : p.IsNew m) : alone (p.look file) m =
    .ask p.source fun x => .done (p.digest? file x, p.keep m x) := by
  cases p with
  | listing url =>
    have hlisting : alone (listing url) m = (alone (fetchListing url) m).bind fun p =>
        .done (p.1, p.2.put (.listing url) (some p.1)) := alone_once'_of_empty hp
    show alone ((listing url).bind _) m = _
    rw [alone_bind, hlisting]
    show Inquiry.ask (Source.text url) _ = _
    congr 1
    funext x
    rcases x with _ | _ | content <;> rfl
  | sidecar url =>
    show Inquiry.ask (Source.text url) _ = _
    congr 1
    funext x
    rcases x with _ | _ | content <;> rfl
  | artifact url =>
    show Inquiry.ask (Source.sha512 url) _ = _
    congr 1
    funext x
    rcases x with _ | _ <;> rfl

/-- A place that was asked does not concern the others. -/
theorem Place.IsNew.keep {q : Place} (hq : q.IsNew m) (hne : q ≠ p) (x : p.source.Answer) :
    q.IsNew (p.keep m x) := by
  cases p with
  | listing url =>
    cases q with
    | listing url' =>
      refine (Memory.get_put_of_ne m (fun heq => hne ?_) _).trans hq
      rw [Slot.listing.inj heq]
    | sidecar url' | artifact url' => trivial
  | sidecar url | artifact url => exact hq

/-- **How a search through places can go**: they are asked one after the other, up to the first that has a
digest. -/
inductive Tried (file : String) : List Place → Exchanges → Option String → Prop where
  | nowhere : Tried file [] [] none
  | found {p : Place} {ps : List Place} {x : p.source.Answer} {digest : String}
      (h : p.digest? file x = some digest) : Tried file (p :: ps) [⟨p.source, x⟩] (some digest)
  | missed {p : Place} {ps : List Place} {x : p.source.Answer} {log : Exchanges} {d : Option String}
      (h : p.digest? file x = none) (hrest : Tried file ps log d) :
      Tried file (p :: ps) (⟨p.source, x⟩ :: log) d

/-- A search asks its first place, and goes on when there is no digest. -/
theorem alone_firstOf_cons (hp : p.IsNew m) : alone (firstOf ((p :: ps).map (Place.look file))) m =
    .ask p.source fun x => match p.digest? file x with
      | some digest => .done (some digest, p.keep m x)
      | none => alone (firstOf (ps.map (Place.look file))) (p.keep m x) := by
  show alone ((p.look file).bind _) m = _
  rw [alone_bind, alone_look hp]
  show Inquiry.ask p.source _ = _
  congr 1
  funext x
  show alone _ (p.keep m x) = _
  cases p.digest? file x <;> rfl

/-- A search through new places. -/
theorem runs_firstOf (hnew : ∀ p ∈ ps, p.IsNew m) (hps : ps.Nodup) :
    (∃ m', (alone (firstOf (ps.map (Place.look file))) m).Runs log (d, m')) ↔ Tried file ps log d := by
  induction ps generalizing m log with
  | nil =>
    constructor
    · rintro ⟨m', h⟩
      obtain ⟨rfl, heq⟩ := runs_done.1 h
      obtain ⟨rfl, -⟩ := Prod.mk.inj heq
      exact .nowhere
    · rintro ⟨⟩
      exact ⟨m, .done _⟩
  | cons p ps ih =>
    obtain ⟨hp, hnew⟩ := List.forall_mem_cons.1 hnew
    obtain ⟨hne, hps⟩ := List.nodup_cons.1 hps
    have hrest (x : p.source.Answer) (q : Place) (hq : q ∈ ps) : q.IsNew (p.keep m x) :=
      (hnew q hq).keep (ne_of_mem_of_not_mem hq hne) x
    simp only [alone_firstOf_cons hp, runs_ask]
    constructor
    · rintro ⟨m', x, later, rfl, h⟩
      cases hx : p.digest? file x with
      | some digest =>
        rw [hx] at h
        obtain ⟨rfl, heq⟩ := runs_done.1 h
        obtain ⟨rfl, -⟩ := Prod.mk.inj heq
        exact .found hx
      | none =>
        rw [hx] at h
        exact .missed hx ((ih (hrest x) hps).1 ⟨m', h⟩)
    · intro h
      cases h with
      | @found _ _ x digest hx =>
        refine ⟨p.keep m x, x, [], rfl, ?_⟩
        rw [hx]
        exact .done _
      | @missed _ _ x log _ hx h =>
        obtain ⟨m', h⟩ := (ih (hrest x) hps).2 h
        refine ⟨m', x, log, rfl, ?_⟩
        rw [hx]
        exact h

/-- The places of an artifact, when no listing is known but perhaps the local one. -/
theorem runs_places (hm : ∀ url, m.get? (.listing url) = none) :
    (∃ m', (alone (firstOf (places s r)) m).Runs log (d, m')) ↔
      Tried (fileName r.url) (plan s r) log d := by
  rw [places_eq]
  refine runs_firstOf (fun p _ => ?_) (nodup_plan s r)
  cases p with
  | listing url => exact hm url
  | sidecar url | artifact url => trivial

end Upkeep.Checksum
