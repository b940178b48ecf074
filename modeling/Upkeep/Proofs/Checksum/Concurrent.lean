import Upkeep.Proofs.Checksum.Cache
import Upkeep.Proofs.Once.Progress

/-!
# Lookups that run side by side

Any number of lookups share the slots of one service, in any schedule, and whatever is answered from the
outside. The slot of an artifact is entered before those of the listings, so lookups of different artifacts
may wait for one another, but never in a circle.

* `sharing`: **what a lookup keeps to**, whatever it is told.
* `refusing`: what it keeps to when the local listing cannot be read.
* `Shared`, `Refused`: what this means for all lookups together.
* `calls_shared`: **every listing and every artifact is asked for once**, equal artifacts have equal
  digests, and when the local listing cannot be read, every lookup fails and nothing is asked from the
  network.
-/

namespace Upkeep.Checksum

open Once

/-- Lookups that share the slots of a service. -/
abbrev Lookups := System Request Slot Slot.Content Source Source.Answer (Except Failure (Option String))

/-- What may be asked in the slot of an artifact, in order: its sidecar, and the artifact itself. -/
def trail (s : Service) (url : String) (sdk : Bool) : List Source :=
  .text (sidecarUrl url sdk) :: if s.computeShas then [.sha512 url] else []

/-- What may be asked in a slot by the lookup of an artifact. -/
def Slot.script (s : Service) (r : Request) : Slot → List Source
  | digest url => if url = r.url then trail s url r.wantsSdk else []
  | listing url => [.text url]
  | localListing => s.checksumsFile.toList.map .file

/-- An artifact comes before the listings. -/
def Slot.rank : Slot → Nat
  | digest _ => 1
  | listing _ | localListing => 0

/-- **What a lookup keeps to**, whatever it is told: a digest that it comes to is the one in the slot of its
artifact. -/
def sharing (s : Service) :
    Protocol Request Slot Slot.Content Source Source.Answer (Except Failure (Option String)) where
  allowed _ _ := True
  fits _ _ := True
  script := Slot.script s
  fallible slot := slot = .localListing
  rank := Slot.rank
  result r seen a := ∀ c, a = .ok c → ⟨.digest r.url, c⟩ ∈ seen

/-! ### A lookup on its own -/

section

variable {s : Service} {r : Request} {seen : List ((slot : Slot) × slot.Content)} {asked : List Source}
  {post : Post Slot Slot.Content Source (Option String)}

/-- While a lookup is in the slot of its artifact, it may enter any other kind of slot. -/
theorem rank_lt_digest (slot : Slot) (url : String) (hslot : slot.rank = 0) :
    ∀ h ∈ [(Slot.digest url, asked)], slot.rank < h.1.rank := by
  intro h hh
  rw [List.mem_singleton.1 hh, hslot]
  exact Nat.zero_lt_one

theorem obeys_inListing (file url : String)
    (hpost : ∀ d seen', post d [(.digest r.url, asked)] seen') :
    (sharing s).Obeys r post (inListing file url) [(.digest r.url, asked)] seen := by
  refine Protocol.obeys_bind (Protocol.obeys_once' (rank_lt_digest (.listing url) r.url rfl) ?_
    fun _ _ _ => hpost _ _)
  refine ⟨.listing url, [], _, rfl, List.prefix_rfl, ?_⟩
  rintro (_ | _ | content) - <;> exact ⟨_, rfl, trivial⟩

/-- The listings do not matter for what is asked in the slot of the artifact. -/
theorem obeys_listings {file : String} {urls : List String} {rest : List (Lookup (Option String))}
    (hsome : ∀ d seen', post (some d) [(.digest r.url, asked)] seen')
    (hrest : ∀ seen', (sharing s).Obeys r post (firstOf rest) [(.digest r.url, asked)] seen') :
    (sharing s).Obeys r post (firstOf (urls.map (inListing file) ++ rest)) [(.digest r.url, asked)]
      seen := by
  induction urls generalizing seen with
  | nil => exact hrest seen
  | cons url urls ih =>
    refine Protocol.obeys_bind (obeys_inListing file url fun d seen' => ?_)
    cases d with
    | some d => exact hsome d seen'
    | none => exact ih

theorem obeys_inSidecar {url : String} (hscript : asked ++ [.text url] <+: Slot.script s r (.digest r.url))
    (hpost : ∀ d, post d [(.digest r.url, asked ++ [.text url])] seen) :
    (sharing s).Obeys r post (inSidecar url) [(.digest r.url, asked)] seen := by
  refine ⟨_, asked, [], rfl, hscript, ?_⟩
  rintro (_ | _ | content) - <;> exact hpost _

theorem obeys_ofArtifact (hscript : asked ++ [.sha512 r.url] <+: Slot.script s r (.digest r.url))
    (hpost : ∀ d, post d [(.digest r.url, asked ++ [.sha512 r.url])] seen) :
    (sharing s).Obeys r post (ofArtifact r.url) [(.digest r.url, asked)] seen := by
  refine ⟨_, asked, [], rfl, hscript, ?_⟩
  rintro (_ | _) - <;> exact hpost _

/-- In all places together, the sidecar and the artifact are asked for once. -/
theorem obeys_places (hpost : ∀ d asked seen', post d [(.digest r.url, asked)] seen') :
    (sharing s).Obeys r post (firstOf (places s r)) [(.digest r.url, [])] seen := by
  have hscript : Slot.script s r (.digest r.url) = trail s r.url r.wantsSdk := if_pos rfl
  have hfirst : [] ++ [.text (sidecarUrl r.url r.wantsSdk)] <+: Slot.script s r (.digest r.url) := by
    simp [hscript, trail]
  rw [places, List.append_assoc]
  refine obeys_listings (fun d seen' => hpost _ _ _) fun seen' => ?_
  refine Protocol.obeys_bind (obeys_inSidecar hfirst fun d => ?_)
  cases d with
  | some d => exact hpost _ _ _
  | none =>
    show (sharing s).Obeys r post (firstOf (if s.computeShas then [ofArtifact r.url] else [])) _ _
    split
    · rename_i hcompute
      refine Protocol.obeys_bind (obeys_ofArtifact (by simp [hscript, trail, hcompute]) fun d => ?_)
      cases d with
      | some d | none => exact hpost _ _ _
    · exact hpost _ _ _

/-- The local listing is read while nothing was asked yet in the slot of the artifact. -/
theorem obeys_inLocalListing
    {post : Post Slot Slot.Content Source (Except Failure (Option String))}
    (hpost : ∀ a seen', post a [(.digest r.url, [])] seen') :
    (sharing s).Obeys r post (inLocalListing s r.url) [(.digest r.url, [])] seen := by
  unfold inLocalListing
  cases hpath : s.checksumsFile with
  | none => exact hpost _ _
  | some path =>
    have hscript : Slot.script s r .localListing = [.file path] := by simp [Slot.script, hpath]
    refine Protocol.obeys_bind (Protocol.obeys_once (rank_lt_digest .localListing r.url rfl) ?_
      fun _ _ _ => hpost _ _)
    refine ⟨.localListing, [], _, rfl, hscript ▸ List.prefix_rfl, ?_⟩
    rintro (e | content) -
    · exact ⟨_, rfl, fun e _ => ⟨.inr rfl, hpost _ _⟩, nofun⟩
    · exact ⟨_, rfl, nofun, fun _ _ => trivial⟩

/-- **A lookup keeps to what lookups share.** -/
theorem governs_sharing (s : Service) : (sharing s).Governs (resolve s) := by
  intro r
  refine Protocol.obeys_once (by simp) (Protocol.obeys_bind (obeys_inLocalListing fun a seen => ?_)) ?_
  · rcases a with e | d | d
    · exact ⟨[], rfl, fun e _ => ⟨.inl rfl, rfl, nofun⟩, nofun⟩
    · refine Protocol.obeys_bind (obeys_places fun d asked seen => ?_)
      exact ⟨asked, rfl, nofun, fun _ _ => trivial⟩
    · exact ⟨[], rfl, nofun, fun _ _ => trivial⟩
  · rintro c seen -
    refine ⟨rfl, fun c' hc' => ?_⟩
    obtain rfl := Except.ok.inj hc'
    exact List.mem_cons_self ..

end

/-! ### A local listing that cannot be read -/

/-- The failure of a local listing that cannot be read. -/
def unreadable (path : String) (e : FileError) : Failure :=
  .ofFile ("Failed to read checksums file: " ++ path) e

/-- **What a lookup keeps to when the local listing cannot be read**: it reads that file only, no slot is
ever filled, and it fails. -/
def refusing (path : String) :
    Protocol Request Slot Slot.Content Source Source.Answer (Except Failure (Option String)) where
  allowed
    | .file p, answer => p = path → ∃ e, answer = .error e
    | _, _ => True
  fits _ _ := False
  script
    | _, .localListing => [.file path]
    | _, _ => []
  fallible slot := slot = .localListing
  rank := Slot.rank
  result _ _ a := ∃ e, a = .error (unreadable path e)

theorem governs_refusing {s : Service} {path : String} (hpath : s.checksumsFile = some path) :
    (refusing path).Governs (resolve s) := by
  intro r
  refine Protocol.obeys_once (by simp) (Protocol.obeys_bind ?_) fun _ _ hfits => hfits.elim
  rw [inLocalListing, hpath]
  refine Protocol.obeys_bind (Protocol.obeys_once (rank_lt_digest .localListing r.url rfl) ?_
    fun _ _ hfits => hfits.elim)
  refine ⟨.localListing, [], _, rfl, List.prefix_rfl, fun answer hanswer => ?_⟩
  obtain ⟨e, rfl⟩ := hanswer rfl
  -- the slot of the listing is left empty, and then that of the artifact
  refine ⟨_, rfl, fun e' he' => ⟨.inr rfl, ?_⟩, nofun⟩
  obtain rfl := Except.error.inj he'
  exact ⟨[], rfl, fun e' he' => ⟨.inl rfl, rfl, e, he'.symm⟩, nofun⟩

/-! ### All lookups together -/

/-- Whether a text is asked for. -/
def Source.isText : Source → Bool
  | text _ => true
  | _ => false

/-- What a question is asked for, by the slot in which it is asked: a listing, the sidecar of an artifact,
the artifact itself, or the local listing. -/
inductive Asked (s : Service) : Option Slot × Source → Prop where
  | listing (url : String) : Asked s (some (.listing url), .text url)
  | sidecar (url : String) (sdk : Bool) : Asked s (some (.digest url), .text (sidecarUrl url sdk))
  | artifact (url : String) (h : s.computeShas) : Asked s (some (.digest url), .sha512 url)
  | localListing (path : String) (h : s.checksumsFile = some path) :
      Asked s (some .localListing, .file path)

/-- What holds of lookups that share the slots of a service. -/
structure Shared (s : Service) (st : Lookups) : Prop where
  /-- What is asked for. -/
  asked : ∀ e ∈ st.log, Asked s e
  /-- Each listing is fetched at most once. -/
  listings : ∀ url, st.log.count (some (.listing url), .text url) ≤ 1
  /-- The sidecar of each artifact is fetched at most once. -/
  sidecars : ∀ url, (st.log.countP fun e => e.1 = some (.digest url) && e.2.isText) ≤ 1
  /-- Each artifact is downloaded at most once. -/
  artifacts : ∀ url, (st.log.countP fun e => e.2 = .sha512 url) ≤ 1
  /-- Lookups of the same artifact that succeed have the same digest, or none. -/
  agree : ∀ c ∈ st.calls, ∀ c' ∈ st.calls, c.label.url = c'.label.url →
    ∀ d d', c.result? = some (.ok d) → c'.result? = some (.ok d') → d = d'
  /-- No lookup waits forever. -/
  ends : Inevitably (System.Continues (fun _ _ => True) (resolve s))
    (fun st' => st'.calls.map (·.label) = st.calls.map (·.label) ∧
      ∀ c ∈ st'.calls, ∃ a, c.result? = some a) st

/-- What holds of lookups when the local listing cannot be read. -/
structure Refused (s : Service) (path : String) (st : Lookups) : Prop where
  /-- Nothing is asked from the network. -/
  asked : ∀ e ∈ st.log, e.2 = .file path
  /-- A lookup that is over has failed. -/
  fails : ∀ c ∈ st.calls, ∀ a, c.result? = some a → ∃ e, a = .error (unreadable path e)
  /-- Every lookup will have failed. -/
  ends : Inevitably (System.Continues (refusing path).allowed (resolve s))
    (fun st' => st'.calls.map (·.label) = st.calls.map (·.label) ∧
      ∀ c ∈ st'.calls, ∃ e, c.result? = some (.error (unreadable path e))) st

section

variable {s : Service} {st : Lookups} {url path : String}

theorem asked_of_log (h : (sharing s).Inv st) {e : Option Slot × Source} (he : e ∈ st.log) :
    Asked s e := by
  obtain ⟨slot, r, hslot, hmem⟩ := h.log e he
  obtain ⟨place, q⟩ := e
  obtain rfl : place = some slot := hslot
  cases slot with
  | digest url =>
    simp only [sharing, Slot.script, trail] at hmem
    split at hmem
    · rcases List.mem_cons.1 hmem with rfl | hmem
      · exact .sidecar url r.wantsSdk
      · split at hmem
        · obtain rfl := List.mem_singleton.1 hmem
          exact .artifact url ‹_›
        · cases hmem
    · cases hmem
  | listing url =>
    obtain rfl := List.mem_singleton.1 hmem
    exact .listing url
  | localListing =>
    obtain ⟨path, hpath, rfl⟩ := List.mem_map.1 hmem
    exact .localListing path (Option.mem_toList.1 hpath)

/-- In the slot of an artifact, no script asks for more than one text, nor for more than one digest. -/
theorem countP_trail_le (p : Source → Bool) (hp : ∀ u, p (.text u) → ∀ v, ¬ p (.sha512 v)) (r : Request) :
    (Slot.script s r (.digest url)).countP p ≤ 1 := by
  simp only [Slot.script, trail]
  split
  · have hone {q : Source} : [q].countP p ≤ 1 := List.countP_le_length
    split
    · cases htext : p (.text (sidecarUrl url r.wantsSdk)) with
      | true => simp [htext, hp _ htext]
      | false => simpa [List.countP_cons, htext] using hone
    · exact hone
  · simp

/-- **What holds of lookups in all schedules**, whatever is answered. -/
theorem shared_of_inv (h : (sharing s).Inv st) : Shared s st where
  asked e he := asked_of_log h he
  listings url := by
    refine le_of_eq_of_le (List.countP_congr fun e _ => ?_)
      (h.countP_log_le (s := .listing url) nofun (· == .text url) fun _ => List.countP_le_length)
    simp [Prod.ext_iff]
  sidecars url :=
    h.countP_log_le (s := .digest url) nofun Source.isText (countP_trail_le _ fun _ _ _ => nofun)
  artifacts url := by
    refine le_of_eq_of_le (List.countP_congr fun e he => ?_)
      (h.countP_log_le (s := .digest url) nofun (· == .sha512 url)
        (countP_trail_le _ fun _ hu => by simp at hu))
    -- an artifact is only asked for in its own slot
    cases asked_of_log h he <;> simp
  agree c hc c' hc' hurl d d' hd hd' := by
    obtain ⟨-, seen, hresult, hseen⟩ := h.result hc hd
    obtain ⟨-, seen', hresult', hseen'⟩ := h.result hc' hd'
    have hcell := hseen _ (hresult d rfl)
    have hcell' := hseen' _ (hresult' d' rfl)
    rw [← hurl] at hcell'
    exact Cell.full.inj (hcell.symm.trans hcell')
  ends := by
    refine (h.inevitably_over (governs_sharing s) fun q => ?_).mono fun st' h' => ⟨h'.1.2, h'.2⟩
    cases q with
    | text url | sha512 url => exact ⟨.ok none, trivial⟩
    | file path => exact ⟨.ok "", trivial⟩

/-- **What holds of lookups in all schedules** when the local listing cannot be read. -/
theorem refused_of_inv (h : (refusing path).Inv st) (hpath : s.checksumsFile = some path) :
    Refused s path st where
  asked e he := by
    obtain ⟨slot, r, -, hmem⟩ := h.log e he
    cases slot with
    | digest url | listing url => cases hmem
    | localListing => exact List.mem_singleton.1 hmem
  fails c hc a ha := by
    obtain ⟨-, seen, hfailed, -⟩ := h.result hc ha
    exact hfailed
  ends := by
    refine (h.inevitably_over (governs_refusing hpath) fun q => ?_).mono fun st' h' =>
      ⟨h'.1.2, fun c hc => ?_⟩
    · cases q with
      | text url | sha512 url => exact ⟨.ok none, trivial⟩
      | file p => exact ⟨.error default, fun _ => ⟨_, rfl⟩⟩
    · obtain ⟨a, ha⟩ := h'.2 c hc
      obtain ⟨-, seen, ⟨e, rfl⟩, -⟩ := h'.1.1.result hc ha
      exact ⟨e, ha⟩

/-- **Lookups that share a service**, in any schedule and whatever is answered: a listing is fetched at most
once, and so are the sidecar of an artifact and the artifact itself, and lookups of one artifact that succeed
agree. When the local listing cannot be read, every lookup fails, and nothing is asked from the network. -/
theorem calls_shared {moves : List (Move Request Source Source.Answer)}
    (hrun : System.run (resolve s) .start moves = some st) :
    Shared s st ∧ ∀ path, s.checksumsFile = some path →
      (∀ i answer, .receive i answer ∈ moves → ∃ e, answer (.file path) = .error e) →
        Refused s path st := by
  refine ⟨shared_of_inv ((Protocol.inv_start _).run (governs_sharing s) (fun m _ => ?_) hrun),
    fun path hpath hanswers => refused_of_inv
      ((Protocol.inv_start _).run (governs_refusing hpath) (fun m hm => ?_) hrun) hpath⟩
  · cases m with
    | call r | work i => trivial
    | receive i answer => exact fun _ => trivial
  · cases m with
    | call r | work i => trivial
    | receive i answer =>
      intro q
      cases q with
      | text url | sha512 url => trivial
      | file p =>
        rintro rfl
        exact hanswers i answer hm

end

/-- Two artifacts of one release. -/
def siblings : List Request :=
  let base := publicBase
  [{ url := base ++ "/a.zip", product := "runtime", buildVersion := some "9.0.1", baseUrl := some base },
   { url := base ++ "/b.zip", product := "runtime", buildVersion := some "9.0.1", baseUrl := some base }]

/-- A listing that has both, and no local one. -/
def listingOnly : (q : Source) → q.Answer
  | .text _ => .ok (some "0a a.zip\n0b b.zip")
  | .sha512 _ => .ok none
  | .file _ => .error ⟨.permissionDenied, "Permission denied"⟩

/-- The second lookup fetches the listing, and the first one waits for it. -/
def listingTaken : List (Move Request Source Source.Answer) :=
  siblings.map .call ++
    [.work 0, .work 1, .work 1, .work 1, .receive 1 listingOnly, .work 1, .work 0, .work 0, .work 1]

/-- Both lookups read the local listing, one after the other. -/
def listingTried : List (Move Request Source Source.Answer) :=
  siblings.map .call ++
    [.work 0, .work 1, .work 1, .work 1, .receive 1 listingOnly, .work 1, .work 0, .work 1, .work 0,
      .receive 0 listingOnly, .work 0, .work 0]

theorem calls_shared_siblings :
    (∃ st, System.run (resolve {}) .start listingTaken = some st ∧ st.log.length = 1 ∧
      st.calls.map (·.result?) = [some (.ok (some "0a")), some (.ok (some "0b"))] ∧ Shared {} st) ∧
    ∃ st, System.run (resolve { checksumsFile := some "sums.txt" }) .start listingTried = some st ∧
      st.log.length = 2 ∧ (st.calls.map fun c => c.result?.isSome) = [true, true] ∧
      Refused { checksumsFile := some "sums.txt" } "sums.txt" st := by
  constructor
  · have hrun : (System.run (resolve {}) .start listingTaken).map
        (fun st => (st.log.length, st.calls.map (·.result?))) =
          some (1, [some (.ok (some "0a")), some (.ok (some "0b"))]) := by rfl
    obtain ⟨st, hst, hends⟩ := Option.map_eq_some_iff.1 hrun
    obtain ⟨hlog, hresults⟩ := Prod.mk.inj hends
    exact ⟨st, hst, hlog, hresults, (calls_shared hst).1⟩
  · have hrun : (System.run (resolve { checksumsFile := some "sums.txt" }) .start listingTried).map
        (fun st => (st.log.length, st.calls.map fun c => c.result?.isSome)) =
          some (2, [true, true]) := by rfl
    obtain ⟨st, hst, hends⟩ := Option.map_eq_some_iff.1 hrun
    obtain ⟨hlog, hresults⟩ := Prod.mk.inj hends
    refine ⟨st, hst, hlog, hresults, (calls_shared hst).2 "sums.txt" rfl fun i answer hmem => ?_⟩
    obtain ⟨-, rfl⟩ | ⟨-, rfl⟩ : i = 1 ∧ answer = listingOnly ∨ i = 0 ∧ answer = listingOnly := by
      simpa [listingTried, siblings] using hmem
    · exact ⟨_, rfl⟩
    · exact ⟨_, rfl⟩

end Upkeep.Checksum
