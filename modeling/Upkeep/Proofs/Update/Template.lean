import Mathlib.Data.List.MinMax
import Upkeep.Proofs.Text.Replace
import Upkeep.Settings
import Upkeep.Update.Template

/-!
# Templates filled in at once

The places of a template are filled in one kind after another, each over the whole text, so a place might be found in
what has been filled in before, or in the beginning of a longer one. Neither happens if no value holds a dollar sign
and the architecture is written apart from what would continue it to the place of the archive.

* `Filling.fillAtOnce`: all places filled in at once, from left to right, each read as the longest one there.
* `Legible`, `legible_of_mem_knownTemplates`: **templates that can be read** in one way only, as the known ones can.
* `Partly`: how far a template has been filled in, when some kinds of places are.
* `Partly.step`, `Partly.run`: what filling in one more kind keeps, and so what filling in all kinds keeps.
* `fill_eq_fillAtOnce`: **one kind after another is all at once**.
-/

namespace Upkeep.Update

open Text

variable {v : Filling} {p q : Placeholder} {done kinds : List Placeholder} {c : Char} {s t template : List Char}

/-! ### All places at once -/

namespace Placeholder

/-- A place is the longest one with which a text begins. -/
def IsLongest (p : Placeholder) (s : List Char) : Prop :=
  p.written <+: s ∧ ∀ q : Placeholder, q.written <+: s → q.written.length ≤ p.written.length

/-- The longest place with which a text begins. -/
def longest? (s : List Char) : Option Placeholder :=
  (all.filter (·.written.isPrefixOf s)).argmax (·.written.length)

theorem mem_all (p : Placeholder) : p ∈ all := by
  cases p <;> decide

/-- Each place is a dollar sign and a name without one. -/
theorem exists_written (p : Placeholder) : ∃ name, p.written = '$' :: name ∧ '$' ∉ name := by
  cases p <;> exact ⟨_, rfl, by decide⟩

theorem written_ne_nil (p : Placeholder) : p.written ≠ [] := by
  obtain ⟨name, hname, -⟩ := p.exists_written
  simp [hname]

/-- **One place begins another** only where that of the architecture begins that of the archive. -/
theorem written_prefix_cases (h : p.written <+: q.written) : p = q ∨ p = arch ∧ q = archive := by
  revert h
  cases p <;> cases q <;> decide

theorem mem_filter_iff : q ∈ all.filter (·.written.isPrefixOf s) ↔ q.written <+: s := by
  simp [mem_all]

theorem longest?_eq_none_iff : longest? s = none ↔ ∀ p : Placeholder, ¬ p.written <+: s := by
  rw [longest?, List.argmax_eq_none, List.eq_nil_iff_forall_not_mem]
  simp only [mem_filter_iff]

theorem isLongest_of_longest? (h : longest? s = some p) : p.IsLongest s :=
  ⟨mem_filter_iff.1 (List.argmax_mem h),
    fun _ hq => List.le_of_mem_argmax (f := fun r => r.written.length) (mem_filter_iff.2 hq) h⟩

theorem IsLongest.longest?_eq (h : p.IsLongest s) : longest? s = some p := by
  cases hq : longest? s with
  | none => exact absurd h.1 (longest?_eq_none_iff.1 hq p)
  | some q =>
    obtain ⟨hbegin, hlongest⟩ := isLongest_of_longest? hq
    -- of two longest places neither is longer, so they are the same
    rcases written_prefix_cases (List.prefix_of_prefix_length_le hbegin h.1 (h.2 q hbegin)) with
      rfl | ⟨rfl, rfl⟩
    · rfl
    · exact absurd (hlongest _ h.1) (by decide)

/-- Where a place begins, a text can be cut after the longest one. -/
theorem exists_isLongest (h : q.written <+: s) :
    ∃ p : Placeholder, ∃ rest, s = p.written ++ rest ∧ p.IsLongest (p.written ++ rest) := by
  obtain ⟨p, hp⟩ : ∃ p, longest? s = some p := by
    rw [← Option.isSome_iff_exists, Option.isSome_iff_ne_none, Ne, longest?_eq_none_iff]
    exact fun hnone => hnone q h
  have hlongest := isLongest_of_longest? hp
  obtain ⟨rest, rfl⟩ := hlongest.1
  exact ⟨p, rest, rfl, hlongest⟩

theorem longest?_of_ne (hc : c ≠ '$') : longest? (c :: s) = none := by
  rw [longest?_eq_none_iff]
  intro p hp
  obtain ⟨name, hname, -⟩ := p.exists_written
  rw [hname, List.cons_prefix_cons] at hp
  exact hc hp.1.symm

end Placeholder

namespace Filling

/-- A template with all places filled in at once, from left to right; a place is read as the longest one that begins
there. -/
def fillAtOnce (v : Filling) : List Char → List Char
  | [] => []
  | c :: s =>
    match Placeholder.longest? (c :: s) with
    | some p => v.value p ++ v.fillAtOnce ((c :: s).drop p.written.length)
    | none => c :: v.fillAtOnce s
termination_by s => s.length
decreasing_by
  · have := List.length_pos_iff.2 p.written_ne_nil
    simp
    omega
  · simp

theorem fillAtOnce_append (h : p.IsLongest (p.written ++ s)) :
    v.fillAtOnce (p.written ++ s) = v.value p ++ v.fillAtOnce s := by
  obtain ⟨name, hname, -⟩ := p.exists_written
  have hlongest := h.longest?_eq
  rw [hname, List.cons_append] at hlongest ⊢
  rw [fillAtOnce, hlongest]
  simp [hname]

theorem fillAtOnce_cons (hc : c ≠ '$') : v.fillAtOnce (c :: s) = c :: v.fillAtOnce s := by
  rw [fillAtOnce, Placeholder.longest?_of_ne hc]

end Filling

/-! ### Templates that can be read -/

/-- A template that can be read in one way only. -/
structure Legible (template : List Char) : Prop where
  /-- Each dollar sign begins a place. -/
  dollar : ∀ s, s <:+ template → s.head? = some '$' → ∃ p : Placeholder, p.written <+: s
  /-- A place of the architecture that does not begin one of the archive is followed by the end, or by a character
  that is neither `I` nor the beginning of a place. -/
  arch : ∀ s, Placeholder.arch.written ++ s <:+ template →
    Placeholder.archive.written <+: Placeholder.arch.written ++ s ∨ ∀ c ∈ s.head?, c ≠ 'I' ∧ c ≠ '$'

theorem Legible.of_suffix (h : Legible template) (hs : s <:+ template) : Legible s :=
  ⟨fun t ht => h.dollar t (ht.trans hs), fun t ht => h.arch t (ht.trans hs)⟩

theorem legible_iff : Legible template ↔ ∀ s ∈ template.tails, s.head? = some '$' →
    (∃ p ∈ Placeholder.all, p.written <+: s) ∧
    (Placeholder.arch.written <+: s → Placeholder.archive.written <+: s ∨
      (s.drop Placeholder.arch.written.length).head? ∉ [some 'I', some '$']) := by
  have hfollows (o : Option Char) : (∀ c ∈ o, c ≠ 'I' ∧ c ≠ '$') ↔ o ∉ [some 'I', some '$'] := by
    cases o <;> simp
  simp only [List.mem_tails, ← hfollows]
  constructor
  · refine fun h s hs hhead => ⟨?_, ?_⟩
    · obtain ⟨p, hp⟩ := h.dollar s hs hhead
      exact ⟨p, p.mem_all, hp⟩
    · rintro ⟨rest, rfl⟩
      rw [List.drop_left]
      exact h.arch rest hs
  · refine fun h => ⟨fun s hs hhead => ?_, fun s hs => ?_⟩
    · obtain ⟨p, -, hp⟩ := (h s hs hhead).1
      exact ⟨p, hp⟩
    · have harch := (h _ hs rfl).2 (List.prefix_append _ _)
      rwa [List.drop_left] at harch

instance (template : List Char) : Decidable (Legible template) := decidable_of_iff _ legible_iff.symm

/-- **The known templates can be read.** -/
theorem legible_of_mem_knownTemplates {product template : String} {templates : List String}
    (h : Settings.knownTemplates? product = some templates) (hmem : template ∈ templates) :
    Legible template.toList := by
  have hall : ∀ x ∈ Settings.knownProducts, ∀ version ∈ ["$VERSION_FILE", "$PRODUCT_VERSION"],
      Legible ("$DOTNET_BASE_URL/".toList ++ x.2.1.toList ++ "/$VERSION_DIR/".toList ++ x.2.2.toList ++ "-".toList ++
        version.toList ++ "-$OS-$ARCH.$ARCHIVE_EXT".toList) := by decide +kernel
  obtain ⟨⟨_, directory, file⟩, hfound, rfl⟩ := Option.map_eq_some_iff.1 h
  obtain ⟨version, hversion, rfl⟩ := List.mem_map.1 hmem
  have hlegible := hall _ (List.mem_of_find?_eq_some hfound) version hversion
  rwa [← String.toList_append, ← String.toList_append, ← String.toList_append, ← String.toList_append,
    ← String.toList_append, ← String.toList_append] at hlegible

/-! ### One kind of places after another -/

/-- How far a template has been filled in, when the places of some kinds are and the others still stand as they were
written. -/
inductive Partly (v : Filling) (done : List Placeholder) : List Char → List Char → Prop where
  | nil : Partly v done [] []
  | char {c : Char} {s t : List Char} (hc : c ≠ '$') (h : Partly v done s t) : Partly v done (c :: s) (c :: t)
  | place {p : Placeholder} {s t : List Char} (hp : p.IsLongest (p.written ++ s))
      (harch : p = .arch → ∀ c ∈ t.head?, c ≠ 'I' ∧ c ≠ '$') (h : Partly v done s t) :
      Partly v done (p.written ++ s) ((if p ∈ done then v.value p else p.written) ++ t)

/-- A template as it is written. -/
theorem Legible.partly (h : Legible template) : Partly v [] template template := by
  induction hlength : template.length using Nat.strong_induction_on generalizing template with
  | _ n ih =>
    cases template with
    | nil => exact .nil
    | cons c s =>
      by_cases hc : c = '$'
      · subst hc
        obtain ⟨q, hq⟩ := h.dollar _ (List.suffix_refl _) rfl
        obtain ⟨p, rest, hrest, hlongest⟩ := Placeholder.exists_isLongest hq
        have hp := List.length_pos_iff.2 p.written_ne_nil
        rw [hrest] at h hlength ⊢
        rw [List.length_append] at hlength
        have hplace := Partly.place hlongest ?_ (ih rest.length (by omega) (h.of_suffix (List.suffix_append _ _)) rfl)
        · rwa [if_neg List.not_mem_nil] at hplace
        · rintro rfl
          refine (h.arch rest (List.suffix_refl _)).resolve_left fun harchive => ?_
          exact absurd (hlongest.2 _ harchive) (by decide)
      · exact .char hc (ih _ (by simp at hlength; omega) (h.of_suffix (List.suffix_cons c s)) rfl)

/-- No value for a place holds a dollar sign. -/
def Filling.IsPlain (v : Filling) : Prop := ∀ p, '$' ∉ v.value p

/-- A place that is still to be filled in is not found where another one stands, unless the other one is that of the
archive and begins with it. -/
theorem Placeholder.not_prefix_append (hne : q ≠ p) (harchive : ¬ (q = arch ∧ p = archive))
    (harch : p = arch → ∀ c ∈ t.head?, c ≠ 'I') : ¬ q.written <+: p.written ++ t := by
  intro h
  rcases List.prefix_or_prefix_of_prefix h (List.prefix_append p.written t) with hqp | hpq
  · exact (written_prefix_cases hqp).elim hne harchive
  · rcases written_prefix_cases hpq with rfl | ⟨rfl, rfl⟩
    · exact hne rfl
    · have hrest : "IVE_EXT".toList <+: t := (List.prefix_append_right_inj arch.written).1 h
      obtain ⟨rest, rfl⟩ := hrest
      exact harch rfl 'I' rfl rfl

namespace Placeholder

variable {new : List Char}

/-- Where no place can begin, none is found. -/
theorem replace_plain (hs : '$' ∉ s) (q : Placeholder) (t : List Char) :
    replace q.written new (s ++ t) = s ++ replace q.written new t := by
  obtain ⟨name, hname, -⟩ := q.exists_written
  rw [hname]
  exact replace_append_of_not_mem hs t

theorem replace_char (hc : c ≠ '$') (q : Placeholder) (t : List Char) :
    replace q.written new (c :: t) = c :: replace q.written new t :=
  q.replace_plain (s := [c]) (by simpa using hc.symm) t

theorem replace_own (q : Placeholder) (t : List Char) :
    replace q.written new (q.written ++ t) = new ++ replace q.written new t := by
  obtain ⟨name, hname, -⟩ := q.exists_written
  rw [hname]
  exact replace_append_self t

theorem replace_other (h : ¬ q.written <+: p.written ++ t) :
    replace q.written new (p.written ++ t) = p.written ++ replace q.written new t := by
  obtain ⟨name, hname, hplain⟩ := p.exists_written
  rw [hname, List.cons_append] at h ⊢
  rw [replace_cons h, replace_plain hplain, List.cons_append]

theorem head?_replace (h : ∀ c ∈ t.head?, c ≠ '$') : (replace q.written new t).head? = t.head? := by
  cases t with
  | nil => rfl
  | cons c t => rw [replace_char (h c rfl), List.head?_cons, List.head?_cons]

end Placeholder

/-- Filling in one more kind of places finds those of that kind and nothing else. -/
theorem Partly.step (h : Partly v done s t) (hv : v.IsPlain) (hq : q = .arch → .archive ∈ done) :
    Partly v (q :: done) s (replace q.written (v.value q) t) := by
  induction h with
  | nil => exact .nil
  | char hc _ ih =>
    rw [Placeholder.replace_char hc]
    exact .char hc ih
  | @place p s t hp harch _ ih =>
    have harch' : p = .arch → ∀ c ∈ (replace q.written (v.value q) t).head?, c ≠ 'I' ∧ c ≠ '$' := by
      intro hpa
      rw [Placeholder.head?_replace fun c hc => (harch hpa c hc).2]
      exact harch hpa
    have hplace : Partly v (q :: done) (p.written ++ s) _ := .place hp harch' ih
    by_cases hdone : p ∈ done
    · rw [if_pos hdone, Placeholder.replace_plain (hv p)]
      rwa [if_pos (List.mem_cons_of_mem q hdone)] at hplace
    · rw [if_neg hdone]
      by_cases hqp : q = p
      · subst hqp
        rw [Placeholder.replace_own]
        rwa [if_pos List.mem_cons_self] at hplace
      · have hnone : ¬ q.written <+: p.written ++ t :=
          Placeholder.not_prefix_append hqp (fun h => hdone (h.2 ▸ hq h.1)) fun hp c hc => (harch hp c hc).1
        rw [Placeholder.replace_other hnone]
        rwa [if_neg (by simp [Ne.symm hqp, hdone])] at hplace

/-- **Filling in all kinds of places**, that of the archive before that of the architecture. -/
theorem Partly.run (h : Partly v done s t) (hv : v.IsPlain) (hall : ∀ p, p ∈ done ∨ p ∈ kinds)
    (hkinds : kinds.Pairwise fun p q => p = .arch → q ≠ .archive) :
    ∃ done', (∀ p, p ∈ done') ∧ Partly v done' s (kinds.foldl (fun t p => replace p.written (v.value p) t) t) := by
  induction kinds generalizing done t with
  | nil => exact ⟨done, by simpa using hall, h⟩
  | cons q kinds ih =>
    rw [List.pairwise_cons] at hkinds
    refine ih (h.step hv fun hq => ?_) (fun p => ?_) hkinds.2
    · rcases hall .archive with hdone | hlater
      · exact hdone
      · rcases List.mem_cons.1 hlater with rfl | hlater
        · cases hq
        · exact absurd rfl (hkinds.1 _ hlater hq)
    · rcases hall p with hdone | hlater
      · exact .inl (List.mem_cons_of_mem q hdone)
      · rcases List.mem_cons.1 hlater with rfl | hlater
        · exact .inl List.mem_cons_self
        · exact .inr hlater

/-- With all places filled in, it does not matter in which order they were. -/
theorem Partly.eq_fillAtOnce (h : Partly v done s t) (hall : ∀ p, p ∈ done) : t = v.fillAtOnce s := by
  induction h with
  | nil => rw [Filling.fillAtOnce]
  | char hc _ ih => rw [Filling.fillAtOnce_cons hc, ← ih]
  | @place p s t hp _ _ ih => rw [Filling.fillAtOnce_append hp, ← ih, if_pos (hall p)]

theorem Partly.dollar_notMem (h : Partly v done s t) (hv : v.IsPlain) (hall : ∀ p, p ∈ done) : '$' ∉ t := by
  induction h with
  | nil => simp
  | char hc _ ih => simp [Ne.symm hc, ih]
  | @place p s t _ _ _ ih =>
    rw [if_pos (hall p), List.mem_append, not_or]
    exact ⟨hv p, ih⟩

/-- The values are free of dollar signs if what they are made from is; the ending of an archive never holds one. -/
theorem Filling.isPlain_of_forall
    (h : ∀ x ∈ [v.baseUrl, v.buildVersion, v.productVersion, v.os, v.arch], '$' ∉ x.toList) : v.IsPlain := by
  simp only [List.forall_mem_cons, List.not_mem_nil, false_imp_iff, forall_true_iff, and_true] at h
  obtain ⟨hbase, hbuild, hproduct, hos, harch⟩ := h
  rintro (_ | _ | _ | _ | _ | _ | _)
  · obtain ⟨run, hrun, -⟩ := exists_dropEnd '/' v.baseUrl.toList
    exact fun hmem => hbase (by rw [hrun]; exact List.mem_append_left _ hmem)
  · exact hbuild
  · exact hbuild
  · exact hproduct
  · show '$' ∉ v.archive
    rw [Filling.archive]
    split <;> decide
  · exact hos
  · exact harch

/-- **One kind of places after another is all places at once**: for a template that can be read and values without
dollar signs, filling in the places kind by kind over the whole text gives what one passage from left to right gives
that reads each place as the longest one there, and leaves no dollar sign. -/
theorem fill_eq_fillAtOnce (v : Filling) (template : String) (htemplate : Legible template.toList)
    (hv : ∀ x ∈ [v.baseUrl, v.buildVersion, v.productVersion, v.os, v.arch], '$' ∉ x.toList) :
    v.fill template = String.ofList (v.fillAtOnce template.toList) ∧ '$' ∉ (v.fill template).toList := by
  have hplain := Filling.isPlain_of_forall hv
  obtain ⟨done, hall, hfilled⟩ := htemplate.partly.run hplain (fun p => .inr p.mem_all) (by decide)
  constructor
  · rw [← hfilled.eq_fillAtOnce hall]
    rfl
  · rw [Filling.fill, String.toList_ofList]
    exact hfilled.dollar_notMem hplain hall

/-- What is filled in for an artifact for Windows, with a version that looks like the end of a place. -/
def windows : Filling where
  baseUrl := "https://ci.dot.net/public//"
  buildVersion := "IVE_EXT"
  productVersion := "9.0.0-rc"
  os := "win"
  arch := "x64"

theorem fill_eq_fillAtOnce_windows :
    Legible "$DOTNET_BASE_URL$OS$VERSION_FILE/$ARCH.$ARCHIVE_EXT$ARCHIVE_EXT$ARCH".toList ∧
      (∀ x ∈ [windows.baseUrl, windows.buildVersion, windows.productVersion, windows.os, windows.arch],
        '$' ∉ x.toList) ∧
      String.ofList (windows.fillAtOnce
        "$DOTNET_BASE_URL$OS$VERSION_FILE/$ARCH.$ARCHIVE_EXT$ARCHIVE_EXT$ARCH".toList) =
          "https://ci.dot.net/publicwinIVE_EXT/x64.zipzipx64" := by
  have htemplate : Legible "$DOTNET_BASE_URL$OS$VERSION_FILE/$ARCH.$ARCHIVE_EXT$ARCHIVE_EXT$ARCH".toList := by
    decide +kernel
  have hplain : ∀ x ∈ [windows.baseUrl, windows.buildVersion, windows.productVersion, windows.os, windows.arch],
      '$' ∉ x.toList := by decide
  refine ⟨htemplate, hplain, ?_⟩
  rw [← (fill_eq_fillAtOnce windows _ htemplate hplain).1]
  decide +kernel

-- a value that continues the place of the architecture would make another place of it
example : windows.fill "$ARCH$VERSION_DIR" = "zip" := by decide +kernel

end Upkeep.Update
