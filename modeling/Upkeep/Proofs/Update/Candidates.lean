import Upkeep.Proofs.Record
import Upkeep.Update.Resolver

/-!
# The search for the digest of an artifact

The templates of a product give the URLs under which an artifact is looked for, each once. The service is asked for
one after the other and the first digest ends the search. A URL without a digest is worth a warning as long as there
is another to try; at the last one it is an error, so that a digest that could not be found never goes unnoticed.

* `Question.Succeeds`: the lookup of a digest does not fail.
* `runs_firstDigest_cons`: one step of the search.
* `runs_firstDigest`: **how a search goes**, whatever the service answers.
* `checksum_sought`: **the search for the digest of an artifact**, from the templates on.
-/

namespace Upkeep.Update

open Inquiry

variable {ctx : Context} {name product os arch url : String} {asked : String → Checksum.Request}
  {d : Dependency} {urls rest templates : List String} {log : List ((q : Question) × q.Answer)}
  {finding : Finding}

/-- What is asked does not fail: where a digest is looked up there is an answer, be it that there is none. -/
def Question.Succeeds : (q : Question) → q.Answer → Prop
  | digest _, answer => ∃ digest? : Option String, answer = .ok digest?
  | release _, _ | save _ _, _ => True

/-- A lookup of the digest at a URL with its answer, a digest or none. -/
def lookedUp (asked : String → Checksum.Request) (url : String) (digest? : Option String) :
    (q : Question) × q.Answer :=
  ⟨.digest (asked url), (.ok digest? : Except Failure (Option String))⟩

/-- The warning that the artifact of a variable has no digest at a URL. -/
def missWarning (name url : String) : Note := .warning ("No checksum for " ++ name ++ " at " ++ url)

/-- The error that the artifact of a variable has no digest anywhere; it names the last URL. -/
def missError (name url : String) : Note :=
  .error ("Could not resolve a checksum for '" ++ name ++ "' from " ++ url)

/-- One step of the search: a failure or a digest ends it, and else it goes on with the next URL. -/
theorem runs_firstDigest_cons : (firstDigest name asked d (url :: rest)).Runs log finding ↔
    ∃ (answer : Except Failure (Option String)) (later : List ((q : Question) × q.Answer)),
      log = ⟨.digest (asked url), answer⟩ :: later ∧
      match answer with
      | .error e => later = [] ∧ finding = ⟨[], .error e⟩
      | .ok (some digest) => later = [] ∧ finding = .value digest d
      | .ok none => ∃ f, (firstDigest name asked d rest).Runs later f ∧
          finding = { f with notes := missNote name url rest.isEmpty :: f.notes } := by
  refine (runs_ask (A := Question.Answer)).trans ?_
  refine exists_congr fun answer => exists_congr fun later => and_congr_right fun _ => ?_
  rcases answer with e | _ | digest
  · exact runs_done
  · show ((firstDigest name asked d rest).bind _).Runs later finding ↔ _
    rw [runs_bind]
    constructor
    · rintro ⟨f, l₁, l₂, hf, hdone, rfl⟩
      obtain ⟨rfl, rfl⟩ := runs_done.1 hdone
      exact ⟨f, by rwa [List.append_nil], rfl⟩
    · rintro ⟨f, hf, rfl⟩
      exact ⟨f, later, [], hf, runs_done.2 ⟨rfl, rfl⟩, (List.append_nil later).symm⟩
  · exact runs_done

/-- How a search ends that finds a digest: the URLs before it have none, and each of them is worth a warning. -/
def Finds (name : String) (asked : String → Checksum.Request) (d : Dependency) (urls : List String)
    (log : List ((q : Question) × q.Answer)) (finding : Finding) : Prop :=
  ∃ missed url later digest, urls = missed ++ url :: later ∧
    log = missed.map (lookedUp asked · none) ++ [lookedUp asked url (some digest)] ∧
    finding = ⟨missed.map (missWarning name), .ok (some ⟨digest, [d]⟩)⟩

/-- How a search ends that finds no digest: all URLs have none, and the last of them is an error. -/
def FindsNone (name : String) (asked : String → Checksum.Request) (urls : List String)
    (log : List ((q : Question) × q.Answer)) (finding : Finding) : Prop :=
  log = urls.map (lookedUp asked · none) ∧
    finding = ⟨urls.dropLast.map (missWarning name) ++ urls.getLast?.toList.map (missError name), .ok none⟩

theorem succeeds_lookedUp {digest? : Option String} : ∀ e ∈ [lookedUp asked url digest?], e.1.Succeeds e.2 := by
  rintro _ (_ | _)
  · exact ⟨digest?, rfl⟩
  · contradiction

theorem succeeds_missed : ∀ e ∈ urls.map (lookedUp asked · none), e.1.Succeeds e.2 := by
  intro e he
  obtain ⟨url, -, rfl⟩ := List.mem_map.1 he
  exact ⟨none, rfl⟩

/-- **How a search goes**, when no lookup fails. -/
theorem runs_firstDigest :
    ((firstDigest name asked d urls).Runs log finding ∧ ∀ e ∈ log, e.1.Succeeds e.2) ↔
      Finds name asked d urls log finding ∨ FindsNone name asked urls log finding := by
  constructor
  · rintro ⟨h, hlog⟩
    induction urls generalizing log finding with
    | nil =>
      obtain ⟨rfl, rfl⟩ := runs_done.1 h
      exact .inr ⟨rfl, rfl⟩
    | cons url rest ih =>
      obtain ⟨answer, later, rfl, hnext⟩ := runs_firstDigest_cons.1 h
      obtain ⟨hanswer, hlater⟩ := List.forall_mem_cons.1 hlog
      obtain ⟨digest?, rfl⟩ := hanswer
      cases digest? with
      | some digest =>
        obtain ⟨rfl, rfl⟩ := hnext
        exact .inl ⟨[], url, rest, digest, rfl, rfl, rfl⟩
      | none =>
        obtain ⟨f, hf, rfl⟩ := hnext
        rcases ih hf hlater with ⟨missed, found, untried, digest, rfl, rfl, rfl⟩ | ⟨rfl, rfl⟩
        · left
          refine ⟨url :: missed, found, untried, digest, rfl, rfl, ?_⟩
          simp [missNote, missWarning]
        · right
          cases rest with
          | nil => exact ⟨rfl, rfl⟩
          | cons next rest => exact ⟨rfl, rfl⟩
  · rintro (⟨missed, found, untried, digest, rfl, rfl, rfl⟩ | ⟨rfl, rfl⟩)
    · refine ⟨?_, List.forall_mem_append.2 ⟨succeeds_missed, succeeds_lookedUp⟩⟩
      induction missed with
      | nil => exact runs_firstDigest_cons.2 ⟨.ok (some digest), [], rfl, rfl, rfl⟩
      | cons first missed ih =>
        refine runs_firstDigest_cons.2 ⟨.ok none, _, rfl, _, ih, ?_⟩
        simp [missNote, missWarning]
    · refine ⟨?_, succeeds_missed⟩
      induction urls with
      | nil => exact runs_done.2 ⟨rfl, rfl⟩
      | cons url rest ih =>
        refine runs_firstDigest_cons.2 ⟨.ok none, _, rfl, _, ih, ?_⟩
        cases rest with
        | nil => rfl
        | cons next rest => rfl

/-! ### From the templates on -/

theorem ne_nil_of_templates? (h : ctx.settings.templates? product = some templates) : templates ≠ [] := by
  rcases Option.or_eq_some_iff.1 h with hset | ⟨-, hknown⟩
  · simpa using (Option.filter_eq_some_iff.1 hset).2
  · obtain ⟨⟨_, directory, file⟩, -, rfl⟩ := Option.map_eq_some_iff.1 hknown
    exact List.cons_ne_nil _ _

/-- A warning is no error. -/
theorem errors_missWarning (name : String) (urls : List String) :
    Note.errors (urls.map (missWarning name)) = [] := by
  simp [Note.errors, missWarning]

/-- **The search for the digest of an artifact** whose product is provided and has templates, when no lookup fails.
There is at least one URL. If one has a digest, the search asks for the URLs up to the first that has one, comes to
that digest and to the dependency, and has a warning for each URL before. If none has a digest, it asks for all of
them, comes to nothing, and has a warning for each but the last, and an error for the last. So it comes to nothing
exactly if it has an error. -/
theorem checksum_sought (hd : ctx.dependency? product = some d)
    (ht : ctx.settings.templates? product = some templates)
    (hurls : (templates.map (filling ctx os arch d.version).fill).eraseDups = urls) :
    ∃ earlier last, urls = earlier ++ [last] ∧
      (∀ log finding,
        (((Resolver.checksum name product os arch).resolve ctx).Runs log finding ∧
            ∀ e ∈ log, e.1.Succeeds e.2) ↔
          (∃ missed url later digest, urls = missed ++ url :: later ∧
            log = missed.map (lookedUp (request ctx product d.version) · none) ++
              [lookedUp (request ctx product d.version) url (some digest)] ∧
            finding = ⟨missed.map (missWarning name), .ok (some ⟨digest, [d]⟩)⟩) ∨
          (log = urls.map (lookedUp (request ctx product d.version) · none) ∧
            finding = ⟨earlier.map (missWarning name) ++ [missError name last], .ok none⟩)) ∧
      ∀ log finding, ((Resolver.checksum name product os arch).resolve ctx).Runs log finding →
        (∀ e ∈ log, e.1.Succeeds e.2) → (finding.derived = .ok none ↔ Note.errors finding.notes ≠ []) := by
  have hne : urls ≠ [] := by
    rintro rfl
    have hmap : templates.map (filling ctx os arch d.version).fill ≠ [] := by
      simpa using ne_nil_of_templates? ht
    obtain ⟨url, hurl⟩ := List.exists_mem_of_ne_nil _ hmap
    rw [← List.mem_eraseDups, hurls] at hurl
    cases hurl
  have hresolve : (Resolver.checksum name product os arch).resolve ctx =
      firstDigest name (request ctx product d.version) d urls := by
    rw [Resolver.resolve, hd]
    dsimp only
    rw [candidates, ht, Option.getD_some, hurls]
  obtain ⟨earlier, last, rfl⟩ : ∃ earlier last, urls = earlier ++ [last] :=
    ⟨_, _, (List.dropLast_concat_getLast hne).symm⟩
  rw [hresolve]
  refine ⟨earlier, last, rfl, fun log finding => ?_, fun log finding hruns hlog => ?_⟩
  · rw [runs_firstDigest, Finds, FindsNone]
    simp
  · rcases runs_firstDigest.1 ⟨hruns, hlog⟩ with ⟨missed, _, _, _, -, -, rfl⟩ | ⟨-, rfl⟩
    · simp [errors_missWarning]
    · simp [Note.errors, missError]

/-- An artifact with three templates, two of which come to the same URL. -/
def twofold : Context where
  settings :=
    { urlTemplates := .ofList [("runtime", ["https://example.com/$VERSION_FILE-$OS.zip",
        "https://example.com/latest-$OS.zip", "https://example.com/$PRODUCT_VERSION-$OS.zip"])] }
  dependencies := .ofList [⟨"runtime", "9.0.1"⟩]
  dockerfileVersion := "9.0"
  vars := .ofList [("runtime|9.0|linux|x64|sha", "0000")]
  baseline := .ofList [("runtime|9.0|linux|x64|sha", "0000")]

/-- Two URLs are tried, and the second is the last. -/
theorem checksum_sought_twofold :
    twofold.dependency? "runtime" = some ⟨"runtime", "9.0.1"⟩ ∧
      ∀ log finding,
        (((Resolver.checksum "runtime|9.0|linux|x64|sha" "runtime" "linux" "x64").resolve twofold).Runs log finding ∧
            (∀ e ∈ log, e.1.Succeeds e.2) ∧ finding.derived = .ok none) ↔
          log = ["https://example.com/9.0.1-linux.zip", "https://example.com/latest-linux.zip"].map
            (lookedUp (request twofold "runtime" "9.0.1") · none) ∧
          finding = ⟨[.warning "No checksum for runtime|9.0|linux|x64|sha at https://example.com/9.0.1-linux.zip",
            .error "Could not resolve a checksum for 'runtime|9.0|linux|x64|sha' from https://example.com/latest-linux.zip"],
            .ok none⟩ := by
  have hd : twofold.dependency? "runtime" = some ⟨"runtime", "9.0.1"⟩ := by decide +kernel
  have ht : twofold.settings.templates? "runtime" = some ["https://example.com/$VERSION_FILE-$OS.zip",
      "https://example.com/latest-$OS.zip", "https://example.com/$PRODUCT_VERSION-$OS.zip"] := by decide +kernel
  have hurls : (["https://example.com/$VERSION_FILE-$OS.zip", "https://example.com/latest-$OS.zip",
      "https://example.com/$PRODUCT_VERSION-$OS.zip"].map (filling twofold "linux" "x64" "9.0.1").fill).eraseDups =
        ["https://example.com/9.0.1-linux.zip", "https://example.com/latest-linux.zip"] := by decide +kernel
  obtain ⟨earlier, last, hlast, hruns, -⟩ :=
    @checksum_sought twofold "runtime|9.0|linux|x64|sha" "runtime" "linux" "x64" _ _ _ hd ht hurls
  have hsplit : ["https://example.com/9.0.1-linux.zip"] ++ ["https://example.com/latest-linux.zip"] =
      earlier ++ [last] := hlast
  obtain ⟨rfl, hsingle⟩ := List.append_inj' hsplit rfl
  obtain rfl := List.singleton_inj.1 hsingle
  refine ⟨hd, fun log finding => ?_⟩
  have hnotes : [missWarning "runtime|9.0|linux|x64|sha" "https://example.com/9.0.1-linux.zip"] ++
      [missError "runtime|9.0|linux|x64|sha" "https://example.com/latest-linux.zip"] =
      [.warning "No checksum for runtime|9.0|linux|x64|sha at https://example.com/9.0.1-linux.zip",
        .error "Could not resolve a checksum for 'runtime|9.0|linux|x64|sha' from https://example.com/latest-linux.zip"] := by
    decide
  rw [← and_assoc, hruns, List.map_singleton, hnotes]
  constructor
  · rintro ⟨⟨_, _, _, _, -, -, rfl⟩ | h, hnone⟩
    · cases hnone
    · exact h
  · rintro ⟨rfl, rfl⟩
    exact ⟨.inr ⟨rfl, rfl⟩, rfl⟩

end Upkeep.Update
