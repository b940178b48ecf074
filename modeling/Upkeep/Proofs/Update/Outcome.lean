import Upkeep.Proofs.Inquiry
import Upkeep.Update.Updater

/-!
# What resolvers and updaters come to

The outcomes of one variable, whoever answers: the rules of products need no answers but for digests,
and a digest is that of the first candidate that has one.

* `yields_resolve_checksum`: **the digest of an artifact**.
* `yields_propose`: **the value that a variable is to get**.
-/

namespace Upkeep.Update

open Inquiry

variable {R : (q : Question) → q.Answer → Prop} {ctx : Context} {finding : Finding}
  {o : Option DerivedValue} {p : String}

/-- The digest of the first of several artifacts that has one, by what is known of each: nothing yet,
its digest, or that there is none. -/
inductive FirstDigest (known : String → Option (Option String)) :
    List String → Option String → Prop where
  | none : FirstDigest known [] none
  | found {url digest : String} {rest : List String} (h : known url = some (some digest)) :
      FirstDigest known (url :: rest) (some digest)
  | missed {url : String} {rest : List String} {o : Option String} (h : known url = some Option.none)
      (hr : FirstDigest known rest o) : FirstDigest known (url :: rest) o

theorem FirstDigest.known_of_single {known : String → Option (Option String)} {url : String} {o : Option String}
    (h : FirstDigest known [url] o) : known url = some o := by
  cases h with
  | found h => exact h
  | missed h hr => cases hr; exact h

/-- Answers on digests are those that are known. -/
def FromKnown (R : (q : Question) → q.Answer → Prop) (known : String → Option (Option String)) :
    Prop :=
  ∀ (r : Checksum.Request) (o : Option String), R (.digest r) (.ok o) → known r.url = some o

theorem yields_firstDigest {known : String → Option (Option String)} (hR : FromKnown R known)
    {name : String} {request : String → Checksum.Request} (hurl : ∀ url, (request url).url = url)
    {d : Dependency} {urls : List String}
    (h : (firstDigest name request d urls).Yields R finding) (ho : finding.derived = .ok o) :
    FirstDigest known urls (o.map (·.value)) := by
  induction urls generalizing finding with
  | nil =>
    obtain rfl := yields_pure.1 h
    obtain rfl := Except.ok.inj ho
    exact .none
  | cons url rest ih =>
    obtain ⟨answer, hx, hnext⟩ := yields_ask_bind.1 h
    cases answer with
    | error e =>
      obtain rfl := yields_pure.1 hnext
      cases ho
    | ok digest =>
      -- the answer for this URL is known from now on, whoever gave it
      have hknown := hR _ _ hx
      rw [hurl] at hknown
      cases digest with
      | some digest =>
        obtain rfl := yields_pure.1 hnext
        obtain rfl := Except.ok.inj ho
        exact .found hknown
      | none =>
        obtain ⟨later, hlater, hdone⟩ := yields_bind.1 hnext
        obtain rfl := yields_pure.1 hdone
        exact .missed hknown (ih hlater ho)

/-- A value of an asset was found in the release that was answered. -/
theorem yields_ofAsset {tool : Tool} {arch : String} {field : AssetDetail} {d : Dependency} {v : DerivedValue}
    (h : (ofAsset tool arch field d).Yields R finding) (hv : finding.derived = .ok (some v)) :
    ∃ r, R (.release ⟨tool.owner, tool.repo, d.version⟩) (.ok (some r) : Except Failure (Option Release)) ∧
      (inRelease tool arch field d r).derived = .ok (some v) := by
  obtain ⟨answer, hx, hnext⟩ := yields_ask_bind.1 h
  rcases answer with e | _ | r
  · obtain rfl := yields_pure.1 hnext
    cases hv
  · obtain rfl := yields_pure.1 hnext
    cases hv
  · obtain rfl := yields_pure.1 hnext
    exact ⟨r, hx, hv⟩

theorem yields_resolve_buildVersion
    (h : (Resolver.resolve ctx (.buildVersion p)).Yields R finding) (ho : finding.derived = .ok o) :
    o.map (·.value) = (ctx.dependency? p).map (·.version) := by
  obtain rfl := yields_pure.1 h
  cases hd : ctx.dependency? p with
  | none | some => rw [hd] at ho; obtain rfl := Except.ok.inj ho; rfl

theorem yields_resolve_productVersion
    (h : (Resolver.resolve ctx (.productVersion p)).Yields R finding)
    (ho : finding.derived = .ok o) :
    o.map (·.value) = (ctx.dependency? p).map fun d => Version.tag d.version := by
  obtain rfl := yields_pure.1 h
  cases hd : ctx.dependency? p with
  | none | some => rw [hd] at ho; obtain rfl := Except.ok.inj ho; rfl

theorem yields_resolve_baseUrl (h : (Resolver.resolve ctx .baseUrl).Yields R finding)
    (ho : finding.derived = .ok o) : o.map (·.value) = ctx.settings.desiredBaseUrl? := by
  obtain rfl := yields_pure.1 h
  obtain rfl := Except.ok.inj ho
  cases ctx.settings.desiredBaseUrl? <;> rfl

/-- **The digest of an artifact** is that of the first candidate that has one. -/
theorem yields_resolve_checksum {known : String → Option (Option String)} (hR : FromKnown R known)
    {name os arch : String}
    (h : (Resolver.resolve ctx (.checksum name p os arch)).Yields R finding)
    (ho : finding.derived = .ok o) :
    match ctx.dependency? p with
    | none => o = none
    | some d => FirstDigest known (candidates ctx p os arch d.version) (o.map (·.value)) := by
  rw [Resolver.resolve] at h
  cases hd : ctx.dependency? p with
  | none =>
    rw [hd] at h
    obtain rfl := yields_pure.1 h
    exact (Except.ok.inj ho).symm
  | some d =>
    rw [hd] at h
    exact yields_firstDigest hR (fun _ => rfl) h ho

/-- The value that a variable ends with when a run comes to it. A reference stays as it is. -/
def Ends (R : (q : Question) → q.Answer → Prop) (ctx : Context) (u : Updater)
    (current final : String) : Prop :=
  (isWholeReference current ∧ final = current) ∨
    (¬ isWholeReference current ∧ ∃ finding o, (u.resolver.resolve ctx).Yields R finding ∧
      finding.derived = .ok o ∧ final = (o.map (·.value)).getD current)

/-- **The value that a variable is to get.** -/
theorem yields_propose {u : Updater} {notes : List Note} {proposal : Proposal}
    (h : (u.propose ctx).Yields R (notes, .ok proposal)) :
    ctx.vars[u.variableName]? = some proposal.current ∧ proposal.variableName = u.variableName ∧
      Ends R ctx u proposal.current proposal.desired := by
  unfold Updater.propose at h
  split at h
  · obtain ⟨-, h⟩ := Prod.mk.inj (yields_pure.1 h)
    cases h
  · rename_i current hcurrent
    split at h
    · rename_i hwhole
      obtain ⟨-, h⟩ := Prod.mk.inj (yields_pure.1 h)
      obtain rfl := Except.ok.inj h
      exact ⟨hcurrent, rfl, .inl ⟨hwhole, rfl⟩⟩
    · rename_i hwhole
      obtain ⟨finding, hfinding, hdone⟩ := yields_bind.1 h
      obtain ⟨-, h⟩ := Prod.mk.inj (yields_pure.1 hdone)
      cases ho : finding.derived with
      | error e => rw [ho] at h; cases h
      | ok o =>
        rw [ho] at h
        obtain rfl := Except.ok.inj h
        cases o with
        | none => exact ⟨hcurrent, rfl, .inr ⟨hwhole, finding, none, hfinding, ho, rfl⟩⟩
        | some r =>
          dsimp only
          by_cases hr : r.value = current
          · rw [if_pos hr]
            exact ⟨hcurrent, rfl, .inr ⟨hwhole, finding, some r, hfinding, ho, hr.symm⟩⟩
          · rw [if_neg hr]
            exact ⟨hcurrent, rfl, .inr ⟨hwhole, finding, some r, hfinding, ho, rfl⟩⟩

end Upkeep.Update
