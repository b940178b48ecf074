import Mathlib.Data.List.Basic
import Upkeep.Proofs.Version.Numeric
import Upkeep.Proofs.Version.Tag

/-!
# The forms of one version

The tag and the preview version of a build name the same release as the build, since they are fronts of it: what is
read off the numbers at the front is the same for all three.

* `IsPreview`, `previewChars_eq_some_iff`: **what a preview version is**, and which builds have one.
* `IsPreview.count_dot`: a preview version has three dots, so it is the preview version of no preview version.
* `IsFront.dockerfile?_eq`, `IsFront.numericChars_eq`: what a front of a version keeps.
* `forms_agree`: **all forms of a version name the same release**.
-/

namespace Upkeep.Version

open Text

variable {v w p : List Char}

/-! ### Preview versions -/

/-- The form of a preview version: three numbers, a word, and the number of the preview. -/
def IsPreview (p : List Char) : Prop :=
  ∃ triple label n, p = join ['.'] triple ++ '-' :: label ++ '.' :: n ∧ triple.length = 3 ∧
    (∀ d ∈ triple, IsRun isDecimalDigit d) ∧ IsRun isLetter label ∧ IsRun isDecimalDigit n

/-- A build has a preview version if it begins with one and goes on with a dot. -/
theorem previewChars_eq_some_iff : previewChars v = some p ↔ IsPreview p ∧ ∃ rest, v = p ++ '.' :: rest := by
  unfold previewChars
  constructor
  · intro h
    split at h
    · rename_i triple r htriple
      split at h
      · rename_i label r hlabel
        split at h
        · rename_i n rest hn
          obtain rfl := Option.some.inj h
          obtain ⟨rfl, hlength, hdigits, -⟩ := numbers?_eq_some_iff.1 htriple
          obtain ⟨rfl, hword, -⟩ := run?_eq_some_iff.1 hlabel
          obtain ⟨rfl, hnumber, -⟩ := run?_eq_some_iff.1 hn
          exact ⟨⟨triple, label, n, rfl, hlength, hdigits, hword, hnumber⟩, rest, by simp⟩
        · cases h
      · cases h
    · cases h
  · rintro ⟨⟨triple, label, n, rfl, hlength, htriple, hlabel, hn⟩, rest, rfl⟩
    have hnumbers : numbers? 2 (join ['.'] triple ++ '-' :: label ++ '.' :: n ++ '.' :: rest) =
        some (triple, '-' :: (label ++ '.' :: (n ++ '.' :: rest))) :=
      numbers?_eq_some_iff.2 ⟨by simp, hlength, htriple, by simp [not_isDecimalDigit_hyphen]⟩
    have hword : run? isLetter (label ++ '.' :: (n ++ '.' :: rest)) = some (label, '.' :: (n ++ '.' :: rest)) :=
      run?_eq_some_iff.2 ⟨rfl, hlabel, by simp [isLetter]⟩
    have hnumber : run? isDecimalDigit (n ++ '.' :: rest) = some (n, '.' :: rest) :=
      run?_eq_some_iff.2 ⟨rfl, hn, by simp [not_isDecimalDigit_dot]⟩
    simp only [hnumbers, hword, hnumber]

theorem IsPreview.count_dot (h : IsPreview p) : p.count '.' = 3 := by
  obtain ⟨triple, label, n, rfl, hlength, htriple, hlabel, hn⟩ := h
  obtain ⟨a, b, c, rfl⟩ := List.length_eq_three.1 hlength
  have hnumber (d : List Char) (hd : IsRun isDecimalDigit d) : d.count '.' = 0 :=
    List.count_eq_zero_of_not_mem (hd.notMem not_isDecimalDigit_dot)
  have hword : label.count '.' = 0 := List.count_eq_zero_of_not_mem (hlabel.notMem (by decide))
  obtain ⟨ha, hb, hc⟩ : IsRun isDecimalDigit a ∧ IsRun isDecimalDigit b ∧ IsRun isDecimalDigit c := by
    simpa using htriple
  simp [join, hnumber a ha, hnumber b hb, hnumber c hc, hnumber n hn, hword]

/-- A preview version is the preview version of no preview version. -/
theorem IsPreview.previewChars_eq_none (h : IsPreview p) : previewChars p = none := by
  rw [Option.eq_none_iff_forall_ne_some]
  intro q hq
  obtain ⟨hpreview, rest, rfl⟩ := previewChars_eq_some_iff.1 hq
  have hdots := h.count_dot
  rw [List.count_append, List.count_cons_self, hpreview.count_dot] at hdots
  omega

/-- A build begins with its preview version. -/
theorem IsPreview.isFront (h : IsPreview p) (rest : List Char) : IsFront p (p ++ '.' :: rest) := by
  obtain ⟨triple, label, n, rfl, hlength, htriple, hlabel, hn⟩ := h
  have hhyphen : '-' ∉ join ['.'] triple := fun hc => by
    rcases mem_join_numbers htriple hc with hc | hc
    · cases hc
    · rw [not_isDecimalDigit_hyphen] at hc
      cases hc
  have hsplit : join ['.'] triple ++ '-' :: label ++ '.' :: n ++ '.' :: rest =
      join ['.'] triple ++ '-' :: (label ++ '.' :: (n ++ '.' :: rest)) := by simp
  have hprefix : join ['.'] triple ++ '-' :: label ++ '.' :: n <+:
      join ['.'] triple ++ '-' :: label ++ '.' :: n ++ '.' :: rest := List.prefix_append _ _
  rw [hsplit] at hprefix ⊢
  refine isFront_of_hyphen hhyphen ?_ hprefix
  rw [List.append_assoc]
  exact List.prefix_append _ _

/-- A preview version begins with a digit. -/
theorem IsPreview.exists_digit (h : IsPreview p) : ∃ c rest, p = c :: rest ∧ isDecimalDigit c = true := by
  obtain ⟨triple, label, n, rfl, hlength, htriple, -⟩ := h
  obtain ⟨a, b, c, rfl⟩ := List.length_eq_three.1 hlength
  obtain ⟨hne, ha⟩ := htriple a List.mem_cons_self
  obtain ⟨c, rest, rfl⟩ := List.exists_cons_of_ne_nil hne
  exact ⟨c, _, rfl, ha c List.mem_cons_self⟩

/-- A front of a version without the longer leads has the same lead. -/
theorem IsFront.dropLead (h : IsFront w v) (hversion : ¬ "version-".toList <+: v)
    (hrelease : ¬ "release-".toList <+: v) : IsFront (dropLead w) (dropLead v) := by
  rw [dropLead_of_noLead hversion hrelease, dropLead_of_noLead (mt (·.trans h.2) hversion)
    (mt (·.trans h.2) hrelease)]
  cases hv : after? ['v'] v with
  | none =>
    have hw : after? ['v'] w = none := after?_eq_none.2 (mt (·.trans h.2) (after?_eq_none.1 hv))
    rwa [hw]
  | some v' =>
    obtain rfl : v = 'v' :: v' := after?_eq_some.1 hv
    obtain ⟨hfront, hprefix⟩ := h
    have hupTo : upTo ['-'] ('v' :: v') = 'v' :: upTo ['-'] v' := rfl
    rw [hupTo] at hfront
    obtain ⟨more, rfl⟩ := hfront
    have hw : after? ['v'] ('v' :: upTo ['-'] v' ++ more) = some (upTo ['-'] v' ++ more) := rfl
    rw [hw]
    exact ⟨List.prefix_append _ _, (List.prefix_cons_inj 'v').1 hprefix⟩

/-! ### What a front keeps -/

/-- What a front keeps of the numbers makes its Dockerfile version. -/
theorem IsFront.dockerfile?_eq {v w : String} (h : IsFront w.toList v.toList) : dockerfile? w = dockerfile? v := by
  have hforms (s : String) : dockerfile? s =
      ((numbers? 1 s.toList).map Prod.fst).map fun ds => String.ofList (join ['.'] ds) := by
    rw [dockerfile?, Option.map_map]
    rfl
  rw [hforms, hforms, h.numbers?_eq]

/-- A front of a version without the longer leads has the same numeric triple. -/
theorem IsFront.numericChars_eq (h : IsFront w v) (hversion : ¬ "version-".toList <+: v)
    (hrelease : ¬ "release-".toList <+: v) : numericChars w = numericChars v := by
  ext triple
  rw [numericChars_eq_some, numericChars_eq_some, (h.dropLead hversion hrelease).numbers?_eq]

theorem toOption_dockerfile (v : String) : (dockerfile v).toOption = dockerfile? v := by
  unfold dockerfile
  cases dockerfile? v <;> rfl

theorem toOption_numeric (v : String) : (numeric v).toOption = numericChars v.toList := by
  unfold numeric numeric?
  cases numericChars v.toList <;> rfl

/-- **All forms of a version name the same release**: its tag and its preview version have the Dockerfile version and
the numeric triple that it has itself, or lack them as it does. Only the longer leads have a hyphen of their own, at
which the tag may end. -/
theorem forms_agree (v : String) :
    (dockerfile (tag v)).toOption = (dockerfile v).toOption ∧
    (∀ p, preview? v = some p → (∃ rest, v = p ++ "." ++ rest) ∧ preview? p = none ∧
      (dockerfile p).toOption = (dockerfile v).toOption ∧ (numeric p).toOption = (numeric v).toOption) ∧
    (¬ "version-".toList <+: v.toList → ¬ "release-".toList <+: v.toList →
      (numeric (tag v)).toOption = (numeric v).toOption) := by
  have htag : IsFront (tag v).toList v.toList := (tag_eq_iff.1 rfl).isFront
  simp only [toOption_dockerfile, toOption_numeric]
  refine ⟨htag.dockerfile?_eq, fun p hp => ?_, htag.numericChars_eq⟩
  obtain ⟨q, hq, rfl⟩ := Option.map_eq_some_iff.1 hp
  obtain ⟨hpreview, rest, hv⟩ := previewChars_eq_some_iff.1 hq
  have hfront : IsFront (String.ofList q).toList v.toList := by
    rw [String.toList_ofList, hv]
    exact hpreview.isFront rest
  have hlead (c : Char) (lead : List Char) (hc : isDecimalDigit c = false) : ¬ c :: lead <+: v.toList := by
    obtain ⟨d, more, rfl, hd⟩ := hpreview.exists_digit
    rw [hv, List.cons_append, List.cons_prefix_cons]
    rintro ⟨rfl, -⟩
    rw [hd] at hc
    cases hc
  refine ⟨⟨String.ofList rest, ?_⟩, ?_, hfront.dockerfile?_eq, hfront.numericChars_eq ?_ ?_⟩
  · rw [← String.toList_inj, hv]
    simp
  · rw [preview?, String.toList_ofList, hpreview.previewChars_eq_none, Option.map_none]
  · exact hlead 'v' _ (by decide)
  · exact hlead 'r' _ (by decide)

/-- A release candidate: both forms of it have its triple, also the tag, which lacks the number of the candidate. -/
theorem forms_agree_candidate :
    preview? "9.0.0-rc.2.24473.5" = some "9.0.0-rc.2" ∧ preview? "9.0.0-rc.2" = none ∧
      ¬ "version-".toList <+: "9.0.0-rc.2.24473.5".toList ∧ ¬ "release-".toList <+: "9.0.0-rc.2.24473.5".toList ∧
      (numeric "9.0.0-rc.2").toOption = (numeric "9.0.0-rc.2.24473.5").toOption ∧
      (numeric (tag "9.0.0-rc.2.24473.5")).toOption = (numeric "9.0.0-rc.2.24473.5").toOption := by
  obtain ⟨-, hforms, htag⟩ := forms_agree "9.0.0-rc.2.24473.5"
  have hpreview : preview? "9.0.0-rc.2.24473.5" = some "9.0.0-rc.2" := by decide
  have hversion : ¬ "version-".toList <+: "9.0.0-rc.2.24473.5".toList := by decide
  have hrelease : ¬ "release-".toList <+: "9.0.0-rc.2.24473.5".toList := by decide
  obtain ⟨-, hnone, -, hnumeric⟩ := hforms _ hpreview
  exact ⟨hpreview, hnone, hversion, hrelease, hnumeric, htag hversion hrelease⟩

-- the tag ends at the hyphen of the lead
example : numeric? "version-9.0.0" = some ⟨9, 0, 0⟩ ∧ numeric? (tag "version-9.0.0") = none := by decide

end Upkeep.Version
