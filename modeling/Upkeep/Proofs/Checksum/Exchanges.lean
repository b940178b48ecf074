import Mathlib.Logic.Function.Basic
import Upkeep.Proofs.Checksum.Places

/-!
# The exchanges of a lookup

What a lookup is told decides what it asks, so a lookup is described by its exchanges: the questions in their
order, each with its answer. On a service that knows nothing yet, these are the local listing, if there is one,
and then the places of the artifact, up to the first that has a digest.

* `Went`: how a lookup can go, whatever it is told.
* `runs_resolve`: a lookup on a service that knows nothing goes in one of these ways, and in each of them.
* `Replies.exchanges`: what is asked by the answers that each place gives.
* `resolve_exchanges`: **what a lookup asks and what it comes to**.
-/

namespace Upkeep.Checksum

open Inquiry Once

variable {s : Service} {r : Request} {m : Findings} {file path : String} {p : Place} {ps : List Place}
  {log : Exchanges} {d : Option String} {a : Except Failure (Option String)}

/-! ### A lookup, whatever it is told -/

/-- What is read of a local listing. -/
def localAnswer (path file : String) : Except FileError String → Except Failure (Option String)
  | .ok content => .ok ((Listing.parse content).get? file)
  | .error e => .error (.ofFile ("Failed to read checksums file: " ++ path) e)

theorem alone_inLocalListing (hfile : s.checksumsFile = some path) (url : String) :
    alone (inLocalListing s url) .empty =
      .ask (.file path) fun (x : Except FileError String) =>
        .done (localAnswer path (fileName url) x,
          Memory.empty.put .localListing (x.toOption.map Listing.parse)) := by
  have hlocal : alone (localListing path) .empty = (alone (readListing path) .empty).bind fun p =>
      .done (p.1, p.2.put .localListing p.1.toOption) := alone_once_of_empty rfl
  rw [inLocalListing, hfile]
  show alone ((localListing path).bind _) .empty = _
  rw [alone_bind, hlocal]
  show Inquiry.ask (Source.file path) _ = _
  congr 1
  funext (x : Except FileError String)
  cases x <;> rfl

/-- How a search can go once it is known what the local listing has: if that is a digest, nothing else is
asked. -/
def GoesOn (s : Service) (r : Request) : Except Failure (Option String) → Exchanges →
    Except Failure (Option String) → Prop
  | .error e, log, a => log = [] ∧ a = .error e
  | .ok (some digest), log, a => log = [] ∧ a = .ok (some digest)
  | .ok none, log, a => ∃ d, a = .ok d ∧ Tried (fileName r.url) (plan s r) log d

/-- **How a lookup can go** on a service that knows nothing. The local listing is read first, if there is
one. -/
def Went (s : Service) (r : Request) (log : Exchanges) (a : Except Failure (Option String)) : Prop :=
  match s.checksumsFile with
  | none => GoesOn s r (.ok none) log a
  | some path => ∃ x later, log = ⟨.file path, x⟩ :: later ∧
      GoesOn s r (localAnswer path (fileName r.url) x) later a

/-- What is left of a search once it is known what the local listing has. -/
def searchOn (s : Service) (r : Request) : Except Failure (Option String) →
    Lookup (Except Failure (Option String))
  | .error e => .done (.error e)
  | .ok (some digest) => .done (.ok (some digest))
  | .ok none => (firstOf (places s r)).bind fun d => .done (.ok d)

theorem search_eq (s : Service) (r : Request) :
    search s r = (inLocalListing s r.url).bind (searchOn s r) := by
  show (inLocalListing s r.url).bind _ = _
  congr 1

theorem runs_searchOn (hm : ∀ url, m.get? (.listing url) = none) (found : Except Failure (Option String)) :
    (∃ m', (alone (searchOn s r found) m).Runs log (a, m')) ↔ GoesOn s r found log a := by
  have hdone (b : Except Failure (Option String)) :
      (∃ m', (alone (.done b) m).Runs log (a, m')) ↔ log = [] ∧ a = b := by
    constructor
    · rintro ⟨m', h⟩
      obtain ⟨hlog, heq⟩ := runs_done.1 h
      exact ⟨hlog, (Prod.mk.inj heq).1⟩
    · rintro ⟨rfl, rfl⟩
      exact ⟨m, .done _⟩
  rcases found with e | _ | digest
  · exact hdone _
  · simp only [searchOn, GoesOn, alone_bind, runs_bind, ← runs_places hm]
    constructor
    · rintro ⟨m', ⟨d, m₁⟩, l₁, l₂, h, hend, rfl⟩
      obtain ⟨rfl, heq⟩ := runs_done.1 hend
      exact ⟨d, (Prod.mk.inj heq).1, m₁, by simpa using h⟩
    · rintro ⟨d, rfl, m₁, h⟩
      exact ⟨m₁, (d, m₁), log, [], h, .done _, by simp⟩
  · exact hdone _

/-- **A search** on a service that knows nothing goes in one of these ways, and in each of them. -/
theorem runs_search : (∃ m, (alone (search s r) .empty).Runs log (a, m)) ↔ Went s r log a := by
  rw [search_eq, alone_bind, Went]
  cases hfile : s.checksumsFile with
  | none =>
    have hlocal : alone (inLocalListing s r.url) .empty = .done (.ok none, .empty) := by
      rw [inLocalListing, hfile]
      rfl
    rw [hlocal]
    exact runs_searchOn (fun _ => rfl) _
  | some path =>
    have hnew (l : Option Listing) (url : String) :
        (Memory.empty.put .localListing l : Findings).get? (.listing url) = none :=
      Memory.get_put_of_ne _ (by simp) _
    rw [alone_inLocalListing hfile]
    show (∃ m, (Inquiry.ask (Source.file path) _).Runs log (a, m)) ↔ _
    simp only [runs_ask]
    constructor
    · rintro ⟨m, x, later, rfl, h⟩
      exact ⟨x, later, rfl, (runs_searchOn (hnew _) _).1 ⟨m, h⟩⟩
    · rintro ⟨x, later, rfl, h⟩
      obtain ⟨m, h⟩ := (runs_searchOn (hnew _) _).2 h
      exact ⟨m, x, later, rfl, h⟩

/-- **A lookup** goes as its search. -/
theorem runs_resolve : (∃ m, (alone (resolve s r) .empty).Runs log (a, m)) ↔ Went s r log a := by
  have hresolve : alone (resolve s r) .empty = (alone (search s r) .empty).bind fun p =>
      .done (p.1, p.2.put (.digest r.url) p.1.toOption) := alone_once_of_empty rfl
  rw [hresolve, ← runs_search]
  simp only [runs_bind, runs_done]
  constructor
  · rintro ⟨m, ⟨b, m₁⟩, l₁, l₂, h, ⟨rfl, heq⟩, rfl⟩
    obtain ⟨rfl, -⟩ := Prod.mk.inj heq
    exact ⟨m₁, by simpa using h⟩
  · rintro ⟨m₁, h⟩
    exact ⟨_, (a, m₁), log, [], h, ⟨rfl, rfl⟩, by simp⟩

/-! ### The exchanges, place by place -/

/-- Answers to what is asked in places. -/
abbrev Replies := (p : Place) → p.source.Answer

/-- The digests that places have for a file. -/
def Replies.digest? (replies : Replies) (file : String) (p : Place) : Option String :=
  p.digest? file (replies p)

/-- What is asked in places and answered there, up to and with the first that has a digest; everywhere, if none
has one. -/
def Replies.exchanges (replies : Replies) (file : String) (ps : List Place) : Exchanges :=
  (ps.take (ps.findIdx (fun p => (replies.digest? file p).isSome) + 1)).map fun p =>
    ⟨p.source, replies p⟩

variable {replies replies' : Replies}

theorem exchanges_cons_of_some (h : (replies.digest? file p).isSome) :
    replies.exchanges file (p :: ps) = [⟨p.source, replies p⟩] := by
  simp [Replies.exchanges, List.findIdx_cons, h]

theorem exchanges_cons_of_none (h : replies.digest? file p = none) :
    replies.exchanges file (p :: ps) = ⟨p.source, replies p⟩ :: replies.exchanges file ps := by
  simp [Replies.exchanges, List.findIdx_cons, h]

/-- Only the answers in the places matter. -/
theorem exchanges_congr (h : ∀ p ∈ ps, replies p = replies' p) :
    replies.exchanges file ps = replies'.exchanges file ps ∧
      ps.findSome? (replies.digest? file) = ps.findSome? (replies'.digest? file) := by
  induction ps with
  | nil => exact ⟨rfl, rfl⟩
  | cons p ps ih =>
    obtain ⟨hp, hps⟩ := List.forall_mem_cons.1 h
    obtain ⟨hexchanges, hfound⟩ := ih hps
    have hdigest : replies.digest? file p = replies'.digest? file p := by
      rw [Replies.digest?, Replies.digest?, hp]
    cases hx : replies'.digest? file p with
    | some digest =>
      rw [exchanges_cons_of_some (by rw [hdigest, hx]; rfl), exchanges_cons_of_some (by rw [hx]; rfl)]
      simp [hp, hx, hdigest]
    | none =>
      rw [exchanges_cons_of_none (hdigest.trans hx), exchanges_cons_of_none hx]
      simp [hp, hx, hdigest, hexchanges, hfound]

/-- Nothing is found anywhere. -/
instance : Inhabited Replies := ⟨fun | .listing _ | .sidecar _ | .artifact _ => .ok none⟩

/-- A search through places that are all different, by the answers that each of them gives. -/
theorem tried_iff (hps : ps.Nodup) : Tried file ps log d ↔
    ∃ replies : Replies, log = replies.exchanges file ps ∧ d = ps.findSome? (replies.digest? file) := by
  induction ps generalizing log d with
  | nil =>
    constructor
    · rintro ⟨⟩
      exact ⟨default, rfl, rfl⟩
    · rintro ⟨replies, rfl, rfl⟩
      exact .nowhere
  | cons p ps ih =>
    obtain ⟨hp, hps⟩ := List.nodup_cons.1 hps
    constructor
    · intro h
      cases h with
      | @found _ _ x digest hx =>
        let replies : Replies := Function.update default p x
        have hreply : replies p = x := Function.update_self ..
        have hdigest : replies.digest? file p = some digest := by rw [Replies.digest?, hreply, hx]
        refine ⟨replies, ?_, ?_⟩
        · rw [exchanges_cons_of_some (by rw [hdigest]; rfl), hreply]
        · rw [List.findSome?_cons_of_isSome (by rw [hdigest]; rfl), hdigest]
      | @missed _ _ x later _ hx h =>
        obtain ⟨elsewhere, rfl, rfl⟩ := (ih hps).1 h
        let replies : Replies := Function.update elsewhere p x
        have hreply : replies p = x := Function.update_self ..
        have hdigest : replies.digest? file p = none := by rw [Replies.digest?, hreply, hx]
        have hsame (q : Place) (hq : q ∈ ps) : elsewhere q = replies q :=
          (Function.update_of_ne (ne_of_mem_of_not_mem hq hp) x elsewhere).symm
        obtain ⟨hexchanges, hfound⟩ : elsewhere.exchanges file ps = replies.exchanges file ps ∧ _ :=
          exchanges_congr hsame
        refine ⟨replies, ?_, ?_⟩
        · rw [exchanges_cons_of_none hdigest, hreply, hexchanges]
        · rw [List.findSome?_cons_of_isNone (by rw [hdigest]; rfl), hfound]
    · rintro ⟨replies, rfl, rfl⟩
      cases hx : replies.digest? file p with
      | some digest =>
        rw [exchanges_cons_of_some (by rw [hx]; rfl), List.findSome?_cons_of_isSome (by rw [hx]; rfl), hx]
        exact .found hx
      | none =>
        rw [exchanges_cons_of_none hx, List.findSome?_cons_of_isNone (by rw [hx]; rfl)]
        exact .missed hx ((ih hps).2 ⟨replies, rfl, rfl⟩)

/-- No file is read in a place. -/
theorem file_notMem_exchanges (path : String) (x : (Source.file path).Answer) :
    ⟨.file path, x⟩ ∉ replies.exchanges file ps := by
  intro h
  obtain ⟨p, -, hp⟩ := List.mem_map.1 h
  cases p <;> cases congrArg Sigma.fst hp

/-- What is read of the local listing, when it can be read: its text, which has the digest of a file or has not;
and nothing, when there is no local listing. -/
def OpensWith (s : Service) (file : String) (opening : Exchanges) (digest? : Option String) : Prop :=
  match s.checksumsFile with
  | none => opening = [] ∧ digest? = none
  | some path => ∃ content, opening = [⟨.file path, .ok content⟩] ∧
      digest? = (Listing.parse content).get? file

/-- How a lookup can go if its local listing can be read. -/
theorem went_iff_of_readable : (Went s r log a ∧ ∀ path e, ⟨.file path, .error e⟩ ∉ log) ↔
    ∃ opening later digest?, log = opening ++ later ∧ OpensWith s (fileName r.url) opening digest? ∧
      GoesOn s r (.ok digest?) later a ∧ ∀ path e, ⟨.file path, .error e⟩ ∉ later := by
  unfold Went OpensWith
  cases s.checksumsFile with
  | none =>
    constructor
    · exact fun h => ⟨[], log, none, rfl, ⟨rfl, rfl⟩, h⟩
    · rintro ⟨_, later, _, rfl, ⟨rfl, rfl⟩, h⟩
      exact h
  | some path =>
    constructor
    · rintro ⟨⟨x, later, rfl, h⟩, hread⟩
      rcases x with e | content
      · exact absurd (List.mem_cons_self ..) (hread path e)
      · exact ⟨_, later, _, rfl, ⟨content, rfl, rfl⟩, h, fun p e he => hread p e (List.mem_cons_of_mem _ he)⟩
    · rintro ⟨_, later, _, rfl, ⟨content, rfl, rfl⟩, h, hread⟩
      refine ⟨⟨.ok content, later, rfl, h⟩, fun p e he => ?_⟩
      rcases List.mem_cons.1 he with heq | he
      · obtain ⟨hsource, hanswer⟩ := Sigma.mk.inj heq
        obtain rfl := Source.file.inj hsource
        cases eq_of_heq hanswer
      · exact hread p e he

/-- **What a lookup asks and what it comes to**, on a service that knows nothing and whose local listing, if
there is one, can be read. If the local listing has the artifact, nothing else is asked. If it has not, the places
are asked in their order, up to and with the first that has a digest, and this is what the lookup comes to; or to
none, when all places were asked and none has one. -/
theorem resolve_exchanges :
    ((∃ m, (alone (resolve s r) .empty).Runs log (a, m)) ∧ ∀ path e, ⟨.file path, .error e⟩ ∉ log) ↔
      ∃ opening later digest?, log = opening ++ later ∧
        OpensWith s (fileName r.url) opening digest? ∧
        match digest? with
        | some digest => later = [] ∧ a = .ok (some digest)
        | none => ∃ replies : Replies, later = replies.exchanges (fileName r.url) (plan s r) ∧
            a = .ok ((plan s r).findSome? (replies.digest? (fileName r.url))) := by
  rw [runs_resolve, went_iff_of_readable]
  refine exists_congr fun opening => exists_congr fun later => exists_congr fun digest? =>
    and_congr_right fun _ => and_congr_right fun _ => ?_
  cases digest? with
  | some digest =>
    constructor
    · exact And.left
    · rintro ⟨rfl, rfl⟩
      exact ⟨⟨rfl, rfl⟩, by simp⟩
  | none =>
    simp only [GoesOn, tried_iff (nodup_plan s r)]
    constructor
    · rintro ⟨⟨d, rfl, replies, rfl, rfl⟩, -⟩
      exact ⟨replies, rfl, rfl⟩
    · rintro ⟨replies, rfl, rfl⟩
      exact ⟨⟨_, rfl, replies, rfl, rfl⟩, fun path e => file_notMem_exchanges path _⟩

end Upkeep.Checksum
