import Upkeep.Engine
import Upkeep.Proofs.Checksum.Cache

/-!
# What an engine finds out

An update asks its questions one after the other, and the engine answers them from what it knows and
from the outside. What it was told of an artifact it still knows when the update is over.

* `Engine.yields_perform`: **the digests an update was told** are those that the engine knows in the
  end, whoever answers from the outside.
* `Engine.yields_perform_released`: the releases too, if they come from a source that does not change.
* `Engine.holds_perform`: **what the engine knows** it answers without asking for it again.
-/

namespace Upkeep

open Update Once Inquiry

/-- Releases come from a source that always gives the same answers; all else is left open. -/
def Released (source : Release.Key → Except Failure (Option Release)) :
    (q : Outside) → q.Answer → Prop
  | .source _, _ => True
  | .release k, (a : Except Failure (Option Release)) => a = source k
  | .save _ _, _ => True

namespace Release

variable {source : Key → Except Failure (Option Release)} {m : Findings} {k : Key}

/-- What a lookup of a release comes to: what was found out, or what the source answers. -/
def answer (source : Key → Except Failure (Option Release)) (m : Findings) (k : Key) :
    Except Failure (Option Release) :=
  match m.get? k with
  | some r => .ok r
  | none => source k

theorem alone_lookup_of_empty (h : m.get? k = none) : alone (lookup k) m =
    .ask k fun (a : Except Failure (Option Release)) => .done (a, m.put k a.toOption) := by
  rw [lookup, alone_once_of_empty h]
  rfl

/-- A lookup changes nothing in what later lookups come to: a failed one is made again. -/
theorem holds_lookup (source : Key → Except Failure (Option Release)) (m : Findings) (k : Key) :
    (alone (lookup k) m).Holds (fun k a => a = source k) (fun _ => True) fun p =>
      p.1 = answer source m k ∧ answer source p.2 = answer source m := by
  cases h : m.get? k with
  | some r =>
    rw [lookup, alone_once_of_filled h]
    exact ⟨by rw [answer, h], rfl⟩
  | none =>
    rw [alone_lookup_of_empty h]
    refine ⟨trivial, fun a ha => ⟨ha.trans (by rw [answer, h]), funext fun j => ?_⟩⟩
    by_cases hj : j = k
    · subst hj
      rw [answer, answer, Memory.get_put_self, h, ← ha]
      cases a <;> rfl
    · rw [answer, answer, Memory.get_put_of_ne m hj]

end Release

namespace Engine

variable {service : Checksum.Service} {known known' : Findings} {e e' : Engine}
  {source : Release.Key → Except Failure (Option Release)}

/-- **What an engine does with a question**: it looks a digest or a release up, by what it has found out so far,
or has a text written. -/
inductive Handled (R : (q : Outside) → q.Answer → Prop) (service : Checksum.Service) (known : Findings) :
    (q : Question) → q.Answer → Findings → Prop where
  | digest {r : Checksum.Request} {a : Except Failure (Option String)} {digests : Checksum.Findings}
      (hlookup : (alone (Checksum.resolve service r) known.digests).Yields (fun q => R (.source q))
        (a, digests)) : Handled R service known (.digest r) a { known with digests }
  | release {k : Release.Key} {a : Except Failure (Option Release)} {releases : Release.Findings}
      (hlookup : (alone (Release.lookup k) known.releases).Yields (fun k => R (.release k))
        (a, releases)) : Handled R service known (.release k) a { known with releases }
  | save {path text : String} {a : Except Failure Unit} (hwritten : R (.save path text) a) :
      Handled R service known (.save path text) a known

theorem handled_of_yields {R : (q : Outside) → q.Answer → Prop} {q : Question} {a : q.Answer}
    (h : ((handle service q).run known).Yields R (a, known')) : Handled R service known q a known' := by
  cases q with
  | digest r =>
    obtain ⟨⟨x, digests⟩, hx, hdone⟩ := yields_bind.1 h
    obtain ⟨rfl, rfl⟩ := Prod.mk.inj (yields_pure.1 hdone)
    refine .digest (hx.of_passed fun q y hy => ?_)
    obtain ⟨z, hz, hsame⟩ := yields_ask.1 hy
    exact yields_done.1 hsame ▸ hz
  | release k =>
    obtain ⟨⟨x, releases⟩, hx, hdone⟩ := yields_bind.1 h
    obtain ⟨rfl, rfl⟩ := Prod.mk.inj (yields_pure.1 hdone)
    refine .release (hx.of_passed fun k y hy => ?_)
    obtain ⟨z, hz, hsame⟩ := yields_ask.1 hy
    exact yields_done.1 hsame ▸ hz
  | save path text =>
    obtain ⟨x, hx, hdone⟩ := yields_ask.1 h
    obtain ⟨rfl, rfl⟩ := Prod.mk.inj (yields_done.1 hdone)
    exact .save hx

/-- An engine that has done a part of an update differs in what it has found out. -/
theorem exists_findings {R : (q : Outside) → q.Answer → Prop} {α : Type} {t : Job α} {a : α}
    (h : (e.perform t).Yields R (a, e')) : ∃ findings,
      ((t.perform (handle (Engine.service e.settings))).run e.findings).Yields R (a, findings) ∧
      e' = { e with findings } := by
  obtain ⟨⟨x, findings⟩, hx, hdone⟩ := yields_bind.1 h
  obtain ⟨rfl, rfl⟩ := Prod.mk.inj (yields_pure.1 hdone)
  exact ⟨findings, hx, rfl⟩

/-- An answer that agrees with what is known of artifacts. -/
def Known (cached? : String → Option (Option String)) : (q : Question) → q.Answer → Prop
  | .digest r, (a : Except Failure (Option String)) => ∀ c, a = .ok c → cached? r.url = some c
  | .release _, _ => True
  | .save _ _, _ => True

/-- Everything that was found out about artifacts is still known. -/
def KeepsFound (known known' : Findings) : Prop :=
  Checksum.KeepsFound known.digests known'.digests

/-- What an engine knows of artifacts it does not forget, and what it answers it knows from then
on. -/
theorem handle_known {q : Question} {a : q.Answer}
    (h : ((handle service q).run known).Yields Any (a, known')) :
    KeepsFound known known' ∧
      ∀ later, Checksum.KeepsFound known'.digests later →
        Known (Checksum.cached? later) q a := by
  cases handled_of_yields h with
  | digest hlookup =>
    obtain ⟨hkeep, hcached⟩ := Checksum.resolve_cached (hlookup.mono fun _ _ _ => trivial)
    exact ⟨hkeep, fun later hlater c hc => hlater _ _ (hcached c hc)⟩
  | release | save => exact ⟨fun _ _ hc => hc, fun _ _ => trivial⟩

/-- **The digests an update was told** are those that the engine knows in the end. -/
theorem yields_perform {α : Type} {t : Job α} {a : α} (h : (e.perform t).Yields Any (a, e')) :
    t.Yields (Known e'.cached?) a := by
  obtain ⟨findings, hx, rfl⟩ := exists_findings h
  exact (hx.of_perform (L := KeepsFound) (K := fun f => Known (Checksum.cached? f.digests))
    (fun _ _ _ hc => hc) (fun _ _ _ h₁ h₂ url c hc => h₂ url c (h₁ url c hc))
    (fun _ _ _ _ hy => ⟨(handle_known hy).1, fun later => (handle_known hy).2 later.digests⟩)).2

theorem settings_of_perform {α : Type} {t : Job α} {a : α} {R : (q : Outside) → q.Answer → Prop}
    (h : (e.perform t).Yields R (a, e')) : e'.settings = e.settings := by
  obtain ⟨findings, -, rfl⟩ := exists_findings h
  rfl

/-! ### What an engine does not ask again -/

/-- Answers that agree with what is known of artifacts and with what lookups of releases come to. -/
def Told (cached? : String → Option (Option String))
    (releases : Release.Key → Except Failure (Option Release)) : (q : Question) → q.Answer → Prop
  | .digest r, a => Known cached? (.digest r) a
  | .release k, (a : Except Failure (Option Release)) => a = releases k
  | .save _ _, _ => True

/-- Answers on artifacts that are known, and those of lookups of releases. -/
def Recalled (cached? : String → Option (Option String))
    (releases : Release.Key → Except Failure (Option Release)) : (q : Question) → q.Answer → Prop
  | .digest r, (a : Except Failure (Option String)) => ∀ c, cached? r.url = some c → a = .ok c
  | .release k, (a : Except Failure (Option Release)) => a = releases k
  | .save _ _, _ => True

/-- A question that does not lead to the sources of digests, nor to a file. -/
def Settled (cached? : String → Option (Option String)) : Question → Prop
  | .digest r => (cached? r.url).isSome
  | .release _ => True
  | .save _ _ => False

/-- What lookups of releases come to. -/
def releases (source : Release.Key → Except Failure (Option Release)) (e : Engine) :
    Release.Key → Except Failure (Option Release) := Release.answer source e.findings.releases

theorem handle_told {q : Question} {a : q.Answer}
    (h : ((handle service q).run known).Yields (Released source) (a, known')) :
    Release.answer source known'.releases = Release.answer source known.releases ∧
      ∀ later : Findings, Checksum.KeepsFound known'.digests later.digests →
        Release.answer source later.releases = Release.answer source known'.releases →
          Told (Checksum.cached? later.digests) (Release.answer source later.releases) q a := by
  have hknown := (handle_known (h.mono fun _ _ _ => trivial)).2
  cases handled_of_yields h with
  | digest => exact ⟨rfl, fun later hlater _ => hknown later.digests hlater⟩
  | @release k _ _ hlookup =>
    obtain ⟨ha, hsame⟩ := (Release.holds_lookup source known.releases k).of_yields hlookup
    exact ⟨hsame, fun later _ hlater => (hlater.trans hsame) ▸ ha⟩
  | save => exact ⟨rfl, fun _ _ _ => trivial⟩

/-- **What an update was told** is what the engine knows in the end, and what lookups of releases come
to then. -/
theorem yields_perform_released {α : Type} {t : Job α} {a : α}
    (h : (e.perform t).Yields (Released source) (a, e')) :
    t.Yields (Told e'.cached? (e'.releases source)) a := by
  obtain ⟨findings, hx, rfl⟩ := exists_findings h
  refine (hx.of_perform
    (L := fun f f' => KeepsFound f f' ∧
      Release.answer source f'.releases = Release.answer source f.releases)
    (K := fun f => Told (Checksum.cached? f.digests) (Release.answer source f.releases))
    (fun _ => ⟨fun _ _ hc => hc, rfl⟩) (fun _ _ _ h₁ h₂ => ?_) (fun q s y s' hy => ?_)).2
  · exact ⟨fun url c hc => h₂.1 url c (h₁.1 url c hc), h₂.2.trans h₁.2⟩
  · obtain ⟨hsame, htold⟩ := handle_told hy
    exact ⟨⟨(handle_known (hy.mono fun _ _ _ => trivial)).1, hsame⟩, fun later hlater =>
      htold later hlater.1 hlater.2⟩

/-- A question from the outside for a release. -/
def IsRelease (q : Outside) : Prop := ∃ k, q = .release k

theorem handle_recalled {q : Question} (hq : Settled (Checksum.cached? known.digests) q) :
    ((handle service q).run known).Holds (Released source) IsRelease fun p =>
      Recalled (Checksum.cached? known.digests) (Release.answer source known.releases) q p.1 ∧
        p.2.digests = known.digests ∧
        Release.answer source p.2.releases = Release.answer source known.releases := by
  cases q with
  | digest r =>
    obtain ⟨c, hc⟩ := Option.isSome_iff_exists.1 hq
    have hdone : alone (Checksum.resolve service r) known.digests = .done (.ok c, known.digests) :=
      alone_once_of_filled hc
    show (ofDigests (alone (Checksum.resolve service r) known.digests) >>= _).Holds _ _ _
    rw [hdone]
    refine ⟨fun c' hc' => ?_, rfl, rfl⟩
    rw [← Option.some.inj (hc.symm.trans hc')]
  | release k =>
    have hlookup : (ofReleases (alone (Release.lookup k) known.releases)).Holds (Released source)
        IsRelease fun p => p.1 = Release.answer source known.releases k ∧
          Release.answer source p.2 = Release.answer source known.releases :=
      (Release.holds_lookup source known.releases k).of_passed
        fun k _ => ⟨⟨k, rfl⟩, fun y hy => hy⟩
    exact holds_bind (hlookup.mono fun p hp => ⟨hp.1, rfl, hp.2⟩)
  | save path text => exact hq.elim

/-- **What the engine knows** it answers without asking for it again. -/
theorem holds_perform {α : Type} {t : Job α} {post : α → Prop}
    (h : t.Holds (Recalled e.cached? (e.releases source)) (Settled e.cached?) post) :
    (e.perform t).Holds (Released source) IsRelease fun p => post p.1 := by
  have hhandle (q : Question) (f : Findings) (hq : Settled e.cached? q)
      (hf : f.digests = e.findings.digests ∧
        Release.answer source f.releases = Release.answer source e.findings.releases) :
      ((handle (Engine.service e.settings) q).run f).Holds (Released source) IsRelease fun p =>
        Recalled e.cached? (e.releases source) q p.1 ∧ p.2.digests = e.findings.digests ∧
          Release.answer source p.2.releases = Release.answer source e.findings.releases := by
    have hq' : Settled (Checksum.cached? f.digests) q := by rw [hf.1]; exact hq
    have hrecalled : ((handle (Engine.service e.settings) q).run f).Holds (Released source)
        IsRelease _ := handle_recalled hq'
    rw [hf.1, hf.2] at hrecalled
    exact hrecalled
  exact holds_bind ((h.of_perform hhandle ⟨rfl, rfl⟩).mono fun p hp => hp.1)

end Engine

end Upkeep
