import Upkeep.Proofs.Checksum.Answers
import Upkeep.Proofs.Checksum.Concurrent
import Upkeep.Proofs.Once.Solo

/-!
# Which digests are hexadecimal

A sidecar is read only as far as it has a digest. The entry of a listing is taken as it stands, but for its case,
be it a digest or any other word. So what lookups come to is hexadecimal exactly if the entries are that they can
end at.

* `isHexDigest_of_sidecar`: a sidecar gives a digest, or nothing.
* `Listed`: an entry of a listing that a lookup can end at.
* `mayFind_hex_or_listed`: **nothing else lets other words through**.
* `digests_hex_iff`: when all lookups come to digests, in all schedules.
-/

namespace Upkeep.Checksum

open Inquiry Once Text

/-- A digest in lower case: hexadecimal digits, at least one. -/
def IsHexDigest (digest : String) : Prop :=
  digest ≠ "" ∧ ∀ c ∈ digest.toList, c ∈ "0123456789abcdef".toList

instance (digest : String) : Decidable (IsHexDigest digest) :=
  decidable_of_iff (digest ≠ "" ∧ digest.toList.all ("0123456789abcdef".toList.contains ·) = true)
    (by simp [IsHexDigest])

variable {R : (q : Source) → q.Answer → Prop} {s : Service} {r : Request} {file digest : String}
  {p : Place} {ps : List Place} {log : Exchanges}

/-- A hexadecimal digit that is no capital is one in lower case. -/
theorem mem_hexDigits {c : Char} (h : isHexDigit c = true) (hlower : ¬ (65 ≤ c.toNat ∧ c.toNat ≤ 90)) :
    c ∈ "0123456789abcdef".toList := by
  have hall : ∀ d ∈ "0123456789abcdefABCDEF".toList, ¬ (65 ≤ d.toNat ∧ d.toNat ≤ 90) →
      d ∈ "0123456789abcdef".toList := List.forall_iff_forall_mem.1 (by decide)
  exact hall c (isHexDigit_iff.1 h) hlower

/-- A sidecar gives a digest, or nothing. -/
theorem isHexDigest_of_sidecar {content : String} (h : sidecarDigest? content = some digest) :
    IsHexDigest digest := by
  unfold sidecarDigest? at h
  split at h
  · cases h
  · rename_i w _ _
    split_ifs at h with hw
    obtain rfl := Option.some.inj h
    simp only [isDigest, Bool.and_eq_true, decide_eq_true_eq, List.all_eq_true] at hw
    refine ⟨fun hempty => hw.1 (by simpa using congrArg String.toList hempty), fun c hc => ?_⟩
    rw [String.toList_ofList] at hc
    exact mem_hexDigits (hw.2 c hc) (not_capital_of_mem_lower hc)

/-- A search that has found a digest has found it in one of the places. -/
theorem Tried.exists_found (h : Tried file ps log (some digest)) :
    ∃ p ∈ ps, ∃ x, ⟨p.source, x⟩ ∈ log ∧ p.digest? file x = some digest := by
  generalize hd : some digest = d at h
  induction h with
  | nowhere => cases hd
  | @found p ps x digest' hx =>
    obtain rfl := Option.some.inj hd
    exact ⟨p, by simp, x, by simp, hx⟩
  | missed _ _ ih =>
    obtain ⟨p, hp, x, hmem, hx⟩ := ih hd
    exact ⟨p, List.mem_cons_of_mem _ hp, x, List.mem_cons_of_mem _ hmem, hx⟩

/-- An entry of a listing, local or of a release, that a lookup can come to on a service that knows nothing, by
answers that a relation allows. -/
def Listed (R : (q : Source) → q.Answer → Prop) (s : Service) (r : Request) (digest : String) : Prop :=
  ∃ log content, Went s r log (.ok (some digest)) ∧ (∀ e ∈ log, R e.1 e.2) ∧
    (Listing.parse content).get? (fileName r.url) = some digest ∧
    ((∃ path, ⟨.file path, .ok content⟩ ∈ log) ∨
      ∃ url, .listing url ∈ plan s r ∧ ⟨.text url, .ok (some content)⟩ ∈ log)

/-- **What a lookup may come to is a digest, or it is the entry of a listing.** -/
theorem mayFind_hex_or_listed
    (hsha512 : ∀ url digest, R (.sha512 url) (.ok (some digest)) → IsHexDigest digest)
    (h : MayFind R s r (.ok (some digest))) : IsHexDigest digest ∨ Listed R s r digest := by
  obtain ⟨log, hwent, hR⟩ := mayFind_iff.1 h
  -- a search through the places that has found something
  have hplaces (later : Exchanges) (hsub : later ⊆ log)
      (htried : Tried (fileName r.url) (plan s r) later (some digest)) :
      IsHexDigest digest ∨ Listed R s r digest := by
    obtain ⟨p, hp, x, hmem, hx⟩ := htried.exists_found
    cases p with
    | listing url =>
      right
      match x with
      | .ok (some content) => exact ⟨log, content, hwent, hR, hx, .inr ⟨url, hp, hsub hmem⟩⟩
    | sidecar url =>
      left
      match x with
      | .ok (some content) => exact isHexDigest_of_sidecar hx
    | artifact url =>
      left
      match x with
      | .ok d =>
        obtain rfl : d = some digest := hx
        exact hsha512 url digest (hR _ (hsub hmem))
  have hall := hwent
  unfold Went at hwent
  split at hwent
  · obtain ⟨d, hd, htried⟩ := hwent
    obtain rfl := Except.ok.inj hd
    exact hplaces log (List.Subset.refl _) htried
  · obtain ⟨x, later, rfl, hgoes⟩ := hwent
    match x with
    | .error e => cases hgoes.2
    | .ok content =>
      rw [localAnswer] at hgoes
      cases hget : (Listing.parse content).get? (fileName r.url) with
      | some digest' =>
        rw [hget] at hgoes
        obtain ⟨-, hd⟩ := hgoes
        obtain rfl := Option.some.inj (Except.ok.inj hd)
        exact .inr ⟨_, content, hall, hR, hget, .inl ⟨_, List.mem_cons_self ..⟩⟩
      | none =>
        rw [hget] at hgoes
        obtain ⟨d, hd, htried⟩ := hgoes
        obtain rfl := Except.ok.inj hd
        exact hplaces later (List.subset_cons_self ..) htried

/-- **When all lookups come to digests**, in all schedules and whatever is answered: exactly when the entries of
listings do that lookups can come to. -/
theorem digests_hex_iff (hsha512 : ∀ url digest, R (.sha512 url) (.ok (some digest)) → IsHexDigest digest)
    (hanswers : ∀ q, ∃ x, R q x) :
    (∀ moves st, (∀ i x, .receive i x ∈ moves → ∀ q, R q (x q)) → System.run (resolve s) .start moves = some st →
        ∀ c ∈ st.calls, ∀ digest, c.result? = some (.ok (some digest)) → IsHexDigest digest) ↔
      ∀ r digest, Listed R s r digest → IsHexDigest digest := by
  constructor
  · rintro h r digest ⟨log, content, hwent, hR, -⟩
    obtain ⟨m, hruns⟩ := runs_resolve.2 hwent
    obtain ⟨moves, st, hmoves, hrun, c, hc, -, hresult⟩ :=
      exists_run_of_runs (governs_sharing s) (fun _ _ => trivial) (fun _ _ => trivial) hanswers hruns hR
    exact h moves st hmoves hrun c hc digest hresult
  · intro h moves st hmoves hrun c hc digest hresult
    have hkept : (finding s R fun url r => r.url = url).Kept st :=
      (Pact.kept_start _).run (governs_finding s R _) (fun _ _ _ => rfl) (Pact.forall_allows hmoves) hrun
    obtain ⟨r, -, hmay⟩ := hkept.result hc hresult
    exact (mayFind_hex_or_listed hsha512 hmay).elim id (h r digest)

/-- The local listing and all texts have one entry; no artifact can be had. -/
def oneEntry (line : String) : (q : Source) → q.Answer
  | .text _ => .ok (some line)
  | .sha512 _ => .ok none
  | .file _ => .ok line

/-- A lookup that ends at the local listing. -/
def endsLocally (answer : (q : Source) → q.Answer) : List (Move Request Source Source.Answer) :=
  [.call { url := "https://example.com/a.zip", product := "runtime" }, .work 0, .work 0, .work 0, .receive 0 answer,
    .work 0, .work 0]

theorem digests_hex_iff_oneEntry :
    (System.run (resolve { checksumsFile := some "sums.txt" }) .start (endsLocally (oneEntry "0A a.zip"))).map
        (fun st => st.calls.map (·.result?)) = some [some (.ok (some "0a"))] ∧
      ∀ moves st, (∀ i x, .receive i x ∈ moves → ∀ q, x q = oneEntry "0A a.zip" q) →
        System.run (resolve { checksumsFile := some "sums.txt" }) .start moves = some st →
          ∀ c ∈ st.calls, ∀ digest, c.result? = some (.ok (some digest)) → IsHexDigest digest := by
  refine ⟨by rfl, ?_⟩
  refine (digests_hex_iff (R := fun q x => x = oneEntry "0A a.zip" q) nofun fun q => ⟨_, rfl⟩).2 ?_
  rintro r digest ⟨log, content, -, hlog, hget, hmem⟩
  have hcontent : content = "0A a.zip" := by
    rcases hmem with ⟨path, hmem⟩ | ⟨url, -, hmem⟩
    · exact Except.ok.inj (hlog _ hmem)
    · exact Option.some.inj (Except.ok.inj (hlog _ hmem))
  have hparse : Listing.parse "0A a.zip" = Listing.empty.record "0a" "a.zip" := by rfl
  rw [hcontent, hparse, Listing.get?_record] at hget
  split_ifs at hget
  · obtain rfl := Option.some.inj hget
    decide
  · simp [Listing.get?, Listing.empty] at hget

/-- An entry that is no digest is passed on. -/
theorem digests_not_hex : ¬ ∀ (s : Service) (answer : (q : Source) → q.Answer),
    (∀ url digest, answer (.sha512 url) = .ok (some digest) → IsHexDigest digest) →
      ∀ moves st, (∀ i x, .receive i x ∈ moves → x = answer) → System.run (resolve s) .start moves = some st →
        ∀ c ∈ st.calls, ∀ digest, c.result? = some (.ok (some digest)) → IsHexDigest digest := by
  intro h
  have hrun : (System.run (resolve { checksumsFile := some "sums.txt", computeShas := false }) .start
      (endsLocally (oneEntry "zzzz a.zip\n"))).map (fun st => st.calls.map (·.result?)) =
        some [some (.ok (some "zzzz"))] := by rfl
  obtain ⟨st, hst, hresults⟩ := Option.map_eq_some_iff.1 hrun
  obtain ⟨c, hc, hresult⟩ : ∃ c ∈ st.calls, c.result? = some (.ok (some "zzzz")) := by
    have hmem : some (.ok (some "zzzz")) ∈ st.calls.map (·.result?) := by
      rw [hresults]
      exact List.mem_singleton_self _
    exact List.mem_map.1 hmem
  have hhex : IsHexDigest "zzzz" :=
    h _ (oneEntry "zzzz a.zip\n") nofun _ st (by simp [endsLocally]) hst c hc "zzzz" hresult
  exact absurd hhex (by decide)

end Upkeep.Checksum
