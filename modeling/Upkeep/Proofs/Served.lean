import Upkeep.CommandLine.Execution
import Upkeep.Proofs.Checksum.Cache
import Upkeep.Proofs.Update.Requests

/-!
# Where the artifacts are served that listings answer for

The listings of a release are asked under the base URL that a request carries, and they know an artifact by the name
of its file alone. So a listing may answer for a file of that name that is served from anywhere, unless who makes
the request sees to it that the URL lies under a base of public releases. A command line gives any URL the base of
the settings, and a template need not begin with the base it is filled in with.

* `asks_ofCarriedBase`: the listings that are asked are those of the base that a request carries.
* `consults_iff`: a listing may be consulted exactly if a request has any.
* `underPublicBase_fill`: **a template that begins with the base** keeps its artifacts under it.
* `guarded_requests_iff`, `asks_guarded_iff`: when the artifacts of a command line and those of a variable lie under
  a base of public releases, as far as listings are consulted for them.
* `listings_guarded_iff`: all of that together.
-/

namespace Upkeep

open Text Inquiry

namespace Checksum

variable {s : Service} {r : Request}

/-! ### One lookup -/

/-- Whether a URL lies under a base of public releases; the case of ASCII letters does not matter. -/
def UnderPublicBase (url : String) : Prop :=
  ∃ b ∈ publicBases, lowerAscii b.toList ++ ['/'] <+: lowerAscii url.toList

instance (url : String) : Decidable (UnderPublicBase url) :=
  inferInstanceAs (Decidable (∃ b ∈ publicBases, lowerAscii b.toList ++ ['/'] <+: lowerAscii url.toList))

/-- A question that is not for a listing of a release. -/
def NoListing (q : Once.Question Slot Slot.Content Source) : Prop := ∀ url, q ≠ .enter (.listing url)

/-- Whether a lookup may come to ask for a listing of a release. -/
def Consults (s : Service) (r : Request) : Prop := ¬ (resolve s r).Asks NoListing

/-- Listings of releases are consulted for an artifact only if it lies under a base of public releases. -/
def Guarded (s : Service) (r : Request) : Prop := Consults s r → UnderPublicBase r.url

theorem mem_listings {url : String} : url ∈ r.listings ↔
    ∃ base, r.baseUrl = some base ∧ isPublicBase base = true ∧ ∃ v ∈ r.versions, url = listingUrl base v := by
  rw [Request.listings]
  cases r.baseUrl with
  | none => simp
  | some base =>
    by_cases hbase : isPublicBase base = true
    · simp only [hbase, if_true, List.mem_map, Option.some.injEq, exists_eq_left', true_and, eq_comm (a := url)]
    · simp [hbase]

/-- A listing that is asked for is one of the base URL that the request carries, and that is one of public
releases. -/
def OfCarriedBase (r : Request) (q : Once.Question Slot Slot.Content Source) : Prop :=
  ∀ url, q = .enter (.listing url) →
    ∃ base, r.baseUrl = some base ∧ isPublicBase base = true ∧ ∃ v ∈ r.versions, url = listingUrl base v

theorem asks_ofCarriedBase (s : Service) (r : Request) : (resolve s r).Asks (OfCarriedBase r) := by
  have hP : Permits s r (OfCarriedBase r) := by
    constructor
    case enterListing =>
      rintro url hurl _ ⟨⟩
      exact mem_listings.1 hurl
    all_goals simp [OfCarriedBase]
  exact Once.asks_once (by simp [OfCarriedBase]) (by simp [OfCarriedBase]) (asks_search hP)

/-- The local listing, if there is one, may have nothing. -/
theorem yields_inLocalListing (s : Service) (url : String) :
    (inLocalListing s url).Yields Any (.ok none) := by
  unfold inLocalListing
  cases s.checksumsFile with
  | none => exact .done _
  | some path =>
    refine yields_bind.2 ⟨.ok Listing.empty, .ask (x := some Listing.empty) trivial (.done _), ?_⟩
    have hempty : Listing.empty.get? (fileName url) = none := by simp [Listing.get?, Listing.empty]
    exact hempty ▸ .done _

/-- **A listing may be consulted exactly if a request has any**, wherever its artifact is served. -/
theorem consults_iff : Consults s r ↔ r.listings ≠ [] := by
  rw [Consults, not_iff_not]
  constructor
  · intro h
    -- no digest may be known yet, the local listing may have none, and then the first listing is next
    have hsearch : (search s r).Asks NoListing := (asks_bind_iff (x := search s r).1 (h.2 none)).1
    have hplaces := (asks_bind_iff.1 hsearch).2 _ (yields_inLocalListing s r.url)
    have hfirst : (firstOf (places s r)).Asks NoListing := (asks_bind_iff (x := firstOf (places s r)).1 hplaces).1
    by_contra hne
    obtain ⟨url, rest, hlistings⟩ := List.exists_cons_of_ne_nil hne
    rw [places, hlistings] at hfirst
    have hlook : (inListing (fileName r.url) url).Asks NoListing := (asks_bind_iff.1 hfirst).1
    have hlisting : (listing url).Asks NoListing := (asks_bind_iff.1 hlook).1
    exact hlisting.1 url rfl
  · intro hnil
    refine (asks_ofCarriedBase s r).mono fun q hq url heq => ?_
    have hmem : url ∈ r.listings := mem_listings.2 (hq url heq)
    rw [hnil] at hmem
    cases hmem

theorem guarded_iff : Guarded s r ↔
    ((∃ base, r.baseUrl = some base ∧ isPublicBase base = true) → r.versions ≠ [] → UnderPublicBase r.url) := by
  have hlistings : r.listings ≠ [] ↔
      (∃ base, r.baseUrl = some base ∧ isPublicBase base = true) ∧ r.versions ≠ [] := by
    constructor
    · intro hne
      obtain ⟨url, hurl⟩ := List.exists_mem_of_ne_nil _ hne
      obtain ⟨base, hbase, hpublic, v, hv, -⟩ := mem_listings.1 hurl
      exact ⟨⟨base, hbase, hpublic⟩, List.ne_nil_of_mem hv⟩
    · rintro ⟨⟨base, hbase, hpublic⟩, hne⟩
      obtain ⟨v, hv⟩ := List.exists_mem_of_ne_nil _ hne
      exact List.ne_nil_of_mem (mem_listings.2 ⟨base, hbase, hpublic, v, hv, rfl⟩)
  rw [Guarded, consults_iff, hlistings, and_imp]

end Checksum

/-! ### The artifacts of a command line -/

section

open Checksum CommandLine

variable {o : ChecksumOptions} {settings : Settings}

/-- A command line knows a version of its artifacts if it names one. -/
theorem versions_requests_ne_nil {r : Request} (hr : r ∈ o.requests settings) :
    r.versions ≠ [] ↔ o.buildVersion.getD "" ≠ "" := by
  obtain ⟨url, -, rfl⟩ := List.mem_map.1 hr
  have hempty : Version.preview? "" = none := by decide
  cases o.buildVersion with
  | none => simp [Request.versions]
  | some v =>
    by_cases hv : v = ""
    · simp [Request.versions, hv, hempty]
    · simp [Request.versions, hv, List.eraseDups_cons]

/-- **When the artifacts of a command line are guarded.** Each is taken to be served under the base URL of the
settings. -/
theorem guarded_requests_iff (service : Service) :
    (∀ r ∈ o.requests settings, Guarded service r) ↔
      (isPublicBase settings.fallbackBaseUrl = true → o.buildVersion.getD "" ≠ "" →
        ∀ url ∈ o.urls, UnderPublicBase url) := by
  have hguarded {r : Request} (hr : r ∈ o.requests settings) : Guarded service r ↔
      (isPublicBase settings.fallbackBaseUrl = true → o.buildVersion.getD "" ≠ "" → UnderPublicBase r.url) := by
    rw [guarded_iff, versions_requests_ne_nil hr]
    obtain ⟨url, -, rfl⟩ := List.mem_map.1 hr
    simp
  constructor
  · intro h hbase hversion url hurl
    have hr : _ ∈ o.requests settings := List.mem_map.2 ⟨url, hurl, rfl⟩
    exact (hguarded hr).1 (h _ hr) hbase hversion
  · intro h r hr
    refine (hguarded hr).2 fun hbase hversion => ?_
    obtain ⟨url, hurl, rfl⟩ := List.mem_map.1 hr
    exact h hbase hversion url hurl

end

/-! ### The artifacts of a variable -/

namespace Update

open Checksum

variable {ctx : Context} {name product os arch : String} {service : Service}

/-- Filling in places passes over a part of a template that has none. -/
theorem foldl_replace_append (v : Filling) {pre : List Char} (hpre : '$' ∉ pre) (ps : List Placeholder)
    (t : List Char) : ps.foldl (fun t p => replace p.written (v.value p) t) (pre ++ t) =
      pre ++ ps.foldl (fun t p => replace p.written (v.value p) t) t := by
  induction ps generalizing t with
  | nil => rfl
  | cons p ps ih =>
    obtain ⟨rest, hwritten⟩ : ∃ rest, p.written = '$' :: rest := by cases p <;> exact ⟨_, rfl⟩
    rw [List.foldl_cons, List.foldl_cons, hwritten, replace_append_of_not_mem hpre, ih]

/-- A template that begins with the base URL leads to an address under it, if there is no place in that URL. -/
theorem exists_fillChars_eq {v : Filling} (hbase : '$' ∉ dropEnd '/' v.baseUrl.toList) (t : List Char) :
    ∃ rest, v.fillChars ("$DOTNET_BASE_URL/".toList ++ t) = dropEnd '/' v.baseUrl.toList ++ '/' :: rest := by
  have hslash : '$' ∉ dropEnd '/' v.baseUrl.toList ++ ['/'] := by simp [hbase]
  have hfirst : replace Placeholder.baseUrl.written (v.value .baseUrl) ("$DOTNET_BASE_URL/".toList ++ t) =
      (dropEnd '/' v.baseUrl.toList ++ ['/']) ++ replace Placeholder.baseUrl.written (v.value .baseUrl) t := by
    have hhere : replace Placeholder.baseUrl.written (v.value .baseUrl)
        (Placeholder.baseUrl.written ++ ('/' :: t)) =
          v.value .baseUrl ++ replace Placeholder.baseUrl.written (v.value .baseUrl) ('/' :: t) :=
      replace_append_self _
    have hnext : replace Placeholder.baseUrl.written (v.value .baseUrl) (['/'] ++ t) =
        ['/'] ++ replace Placeholder.baseUrl.written (v.value .baseUrl) t :=
      replace_append_of_not_mem (show '$' ∉ ['/'] by decide) t
    rw [List.append_assoc, ← hnext]
    exact hhere
  rw [Filling.fillChars, Placeholder.all, List.foldl_cons, hfirst, foldl_replace_append v hslash,
    List.append_assoc]
  exact ⟨_, rfl⟩

/-- **A template that begins with the base URL keeps its artifacts under it**, when that is one of public
releases. -/
theorem underPublicBase_fill {v : Filling} {template : String} (hbase : isPublicBase v.baseUrl = true)
    (htemplate : "$DOTNET_BASE_URL/".toList <+: template.toList) : UnderPublicBase (v.fill template) := by
  obtain ⟨b, hb, hsame⟩ := List.any_eq_true.1 hbase
  have hsame : lowerAscii (dropEnd '/' v.baseUrl.toList) = lowerAscii b.toList := by
    simpa [sameIgnoringCase] using hsame
  have hplain : '$' ∉ dropEnd '/' v.baseUrl.toList := by
    intro hmem
    have hplain : ∀ b ∈ publicBases, '$' ∉ lowerAscii b.toList := by decide
    exact hplain b hb (hsame ▸ List.mem_map_of_mem (f := Char.toLower) hmem)
  obtain ⟨t, ht⟩ := htemplate
  obtain ⟨rest, hrest⟩ := exists_fillChars_eq hplain t
  refine ⟨b, hb, lowerAscii rest, ?_⟩
  rw [Filling.fill, String.toList_ofList, ← ht, hrest, ← hsame]
  simp [lowerAscii]

/-- The known templates begin with the base URL. -/
theorem prefix_of_mem_knownTemplates {templates : List String} {template : String}
    (h : Settings.knownTemplates? product = some templates) (hmem : template ∈ templates) :
    "$DOTNET_BASE_URL/".toList <+: template.toList := by
  obtain ⟨⟨_, directory, file⟩, -, rfl⟩ := Option.map_eq_some_iff.1 h
  obtain ⟨version, -, rfl⟩ := List.mem_map.1 hmem
  simp only [String.toList_append, List.append_assoc]
  exact List.prefix_append _ _

/-- A question for a digest is one for a guarded artifact. -/
def AsksGuarded (service : Service) (q : Question) : Prop := ∀ r, q = .digest r → Guarded service r

/-- **When the artifacts of a variable are guarded.** -/
theorem asks_guarded_iff :
    ((Resolver.checksum name product os arch).resolve ctx).Asks (AsksGuarded service) ↔
      ∀ d, ctx.dependency? product = some d → isPublicBase ctx.baseUrl = true →
        ∀ url ∈ candidates ctx product os arch d.version,
          (request ctx product d.version url).versions ≠ [] → UnderPublicBase url := by
  rw [Resolver.resolve]
  cases ctx.dependency? product with
  | none => exact ⟨fun _ d hd => absurd hd (by simp), fun _ => trivial⟩
  | some d =>
    have hguarded (url : String) : AsksGuarded service (.digest (request ctx product d.version url)) ↔
        (isPublicBase ctx.baseUrl = true → (request ctx product d.version url).versions ≠ [] →
          UnderPublicBase url) := by
      simp [AsksGuarded, guarded_iff, request]
    dsimp only
    rw [asks_firstDigest]
    simp only [hguarded, Option.some.injEq, forall_eq']
    exact ⟨fun h hbase url hurl => h url hurl hbase, fun h url hurl hbase => h hbase url hurl⟩

/-- **When listings of releases are consulted for their own artifacts only.** A lookup asks for listings of the base
that its request carries. So a command line and the rule of a variable consult them for other artifacts unless all
URLs lie under a base of public releases whose requests carry such a base and a version. Templates see to that when
they begin with the base URL. -/
theorem listings_guarded_iff (service : Service) :
    (∀ r, (Checksum.resolve service r).Asks (OfCarriedBase r)) ∧
    (∀ (o : CommandLine.ChecksumOptions) (settings : Settings),
      (∀ r ∈ o.requests settings, Guarded service r) ↔
        (isPublicBase settings.fallbackBaseUrl = true → o.buildVersion.getD "" ≠ "" →
          ∀ url ∈ o.urls, UnderPublicBase url)) ∧
    ∀ (ctx : Context) (name product os arch : String),
      (((Resolver.checksum name product os arch).resolve ctx).Asks (AsksGuarded service) ↔
        ∀ d, ctx.dependency? product = some d → isPublicBase ctx.baseUrl = true →
          ∀ url ∈ candidates ctx product os arch d.version,
            (request ctx product d.version url).versions ≠ [] → UnderPublicBase url) ∧
      ((∀ templates, ctx.settings.urlTemplates[product]? = some templates →
          ∀ template ∈ templates, "$DOTNET_BASE_URL/".toList <+: template.toList) →
        ((Resolver.checksum name product os arch).resolve ctx).Asks (AsksGuarded service)) := by
  refine ⟨asks_ofCarriedBase service, fun o settings => guarded_requests_iff service,
    fun ctx name product os arch => ⟨asks_guarded_iff, fun hconfigured => ?_⟩⟩
  refine asks_guarded_iff.2 fun d _ hbase url hurl _ => ?_
  obtain ⟨templates, template, htemplates, hmem, rfl⟩ := exists_template_of_mem_candidates hurl
  refine underPublicBase_fill hbase ?_
  rcases Option.or_eq_some_iff.1 htemplates with hset | ⟨-, hknown⟩
  · exact hconfigured templates (Option.eq_some_of_filter_eq_some hset) template hmem
  · exact prefix_of_mem_knownTemplates hknown hmem

/-- Without a variable for it, the base URL is that of the settings. -/
theorem baseUrl_of_missing (h : ctx.vars[baseUrlName ctx.settings ctx.dockerfileVersion]? = none) :
    ctx.baseUrl = ctx.settings.fallbackBaseUrl := by
  obtain ⟨settings, dependencies, dockerfileVersion, vars, baseline⟩ := ctx
  rw [baseUrl_eq_value, Variables.value, Variables.follow_of_missing (by simp) h]
  rfl

/-- A variable whose artifact is not served under the base URL. -/
def elsewhere : Context where
  settings :=
    { urlTemplates := .ofList [("runtime", ["https://example.com/$VERSION_DIR/runtime-$OS-$ARCH.zip"])]
      computeShas := false }
  dependencies := .ofList [⟨"runtime", "9.0.1"⟩]
  dockerfileVersion := "9.0"
  vars := .ofList [("runtime|9.0|build-version", "9.0.0"), ("runtime|9.0|linux|x64|sha", "0000")]
  baseline := .ofList [("runtime|9.0|build-version", "9.0.0"), ("runtime|9.0|linux|x64|sha", "0000")]

/-- The listing of a public release has a file of that name, and nothing else can be had. -/
def released : (q : Outside) → q.Answer
  | .source (.text url) =>
    (.ok (if url = listingUrl publicBase "9.0.1" then some "aaaa runtime-linux-x64.zip\n" else none) :
      Except Failure (Option String))
  | .source (.sha512 _) => (.ok none : Except Failure (Option String))
  | .source (.file _) => (.ok "" : Except FileError String)
  | .release _ => (.ok none : Except Failure (Option Release))
  | .save _ _ => (.ok () : Except Failure Unit)

/-- Its digest is taken from the listing all the same. -/
theorem elsewhere_listed :
    ¬ ((Resolver.checksum "runtime|9.0|linux|x64|sha" "runtime" "linux" "x64").resolve elsewhere).Asks
      (AsksGuarded (Engine.service elsewhere.settings)) ∧
    (((Engine.mk elsewhere.settings {}).perform
      ((Resolver.checksum "runtime|9.0|linux|x64|sha" "runtime" "linux" "x64").resolve elsewhere)).result
        released).1.derived.toOption = some (some ⟨"aaaa", [⟨"runtime", "9.0.1"⟩]⟩) := by
  have hbase : elsewhere.baseUrl = publicBase := (baseUrl_of_missing (by decide +kernel)).trans (by decide +kernel)
  constructor
  · intro h
    have hunder := asks_guarded_iff.1 h ⟨"runtime", "9.0.1"⟩ (by decide +kernel)
      (by rw [hbase]; decide) "https://example.com/9.0.1/runtime-linux-x64.zip"
      (by decide +kernel) (by decide +kernel)
    exact absurd hunder (by decide)
  · have hresolve : (Resolver.checksum "runtime|9.0|linux|x64|sha" "runtime" "linux" "x64").resolve elsewhere =
        firstDigest "runtime|9.0|linux|x64|sha"
          (fun url => ⟨url, "runtime", some "9.0.1", some "9.0.1", some elsewhere.baseUrl⟩)
          ⟨"runtime", "9.0.1"⟩ ["https://example.com/9.0.1/runtime-linux-x64.zip"] := by
      have hdependency : elsewhere.dependency? "runtime" = some ⟨"runtime", "9.0.1"⟩ := by decide +kernel
      have hcandidates : candidates elsewhere "runtime" "linux" "x64" "9.0.1" =
          ["https://example.com/9.0.1/runtime-linux-x64.zip"] := by decide +kernel
      have hruntime : elsewhere.runtimeVersion? = some "9.0.1" := by decide +kernel
      rw [Resolver.resolve, hdependency]
      dsimp only
      rw [hcandidates]
      unfold request
      rw [hruntime]
    rw [hresolve, hbase]
    decide +kernel

end Update

end Upkeep
