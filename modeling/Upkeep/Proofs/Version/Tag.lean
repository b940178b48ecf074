import Upkeep.Proofs.Version.Numbers

/-!
# The tag of a build

A tag is read off its build at two cuts, at the first hyphen and at the end of the label behind it. The label that
is left holds no further hyphen, so an ending that marks a stable build is dropped only if it is all of the label.

* `UpToCut`: **what a tag keeps of a label**.
* `IsTag`: **the tag of a build**, case by case.
* `tagChars_eq_iff`: the tag is computed as it is said here.
* `IsTag.isFront`: a build begins with its tag.
* `tag_iff_isTag`: **a tag is the front of its build**, with one hyphen at most and no label of a stable build.
-/

namespace Upkeep.Version

open Text

variable {v t label text release : List Char}

/-- What a tag keeps of a label: the text up to a hyphen, or else up to the first dot, or else all of it. -/
inductive UpToCut : List Char → List Char → Prop where
  | hyphen {text rest : List Char} (h : '-' ∉ text) : UpToCut (text ++ '-' :: rest) text
  | dot {text rest : List Char} (hhyphen : '-' ∉ text ++ '.' :: rest) (h : '.' ∉ text) :
      UpToCut (text ++ '.' :: rest) text
  | whole {text : List Char} (hhyphen : '-' ∉ text) (h : '.' ∉ text) : UpToCut text text

/-- A tag keeps a label up to its cut. -/
theorem upToCut_tagLabel (label : List Char) : UpToCut label (tagLabel label) := by
  unfold tagLabel
  split
  · rename_i kept rest hcut
    obtain ⟨rfl, hkept⟩ := cut_eq_some.1 hcut
    exact .hyphen hkept
  · rename_i hcut
    have hhyphen := cut_eq_none.1 hcut
    have hsplit := upTo_append_onward ['.'] label
    have hdot : '.' ∉ upTo ['.'] label := stop_notMem_upTo (by simp)
    cases hrest : onward ['.'] label with
    | nil =>
      rw [hrest, List.append_nil] at hsplit
      rw [hsplit] at hdot ⊢
      exact .whole hhyphen hdot
    | cons c rest =>
      have hhead : c ∈ (onward ['.'] label).head? := by
        rw [hrest]
        rfl
      obtain rfl : c = '.' := by simpa using mem_of_head?_onward hhead
      rw [hrest] at hsplit
      have hlabel : UpToCut (upTo ['.'] label ++ '.' :: rest) (upTo ['.'] label) := .dot (by rwa [hsplit]) hdot
      rwa [hsplit] at hlabel

theorem UpToCut.tagLabel_eq (h : UpToCut label text) : tagLabel label = text := by
  unfold tagLabel
  cases h with
  | hyphen h => rw [cut_eq_some.2 ⟨rfl, h⟩]
  | dot hhyphen h =>
    rw [cut_eq_none.2 hhyphen]
    exact (upTo_append (by simpa using h) (by simp)).1
  | whole hhyphen h =>
    have hall : upTo ['.'] (label ++ []) = label := (upTo_append (by simpa using h) (by simp)).1
    rw [cut_eq_none.2 hhyphen]
    rwa [List.append_nil] at hall

theorem UpToCut.isPrefix (h : UpToCut label text) : text <+: label := by
  cases h with
  | hyphen | dot => exact List.prefix_append _ _
  | whole => exact List.prefix_rfl

theorem UpToCut.notMem (h : UpToCut label text) : '-' ∉ text := by
  cases h with
  | hyphen h => exact h
  | dot hhyphen => exact fun hc => hhyphen (List.mem_append_left _ hc)
  | whole hhyphen => exact hhyphen

/-- The tag of a build: all of a build without a hyphen; the text before the first hyphen if the label behind it is
that of a stable build up to its cut; and else the text with the label up to its cut. -/
inductive IsTag : List Char → List Char → Prop where
  | plain {v : List Char} (h : '-' ∉ v) : IsTag v v
  | stable {release label text : List Char} (h : '-' ∉ release) (hcut : UpToCut label text)
      (htext : text = "servicing".toList ∨ text = "rtm".toList) : IsTag (release ++ '-' :: label) release
  | labelled {release label text : List Char} (h : '-' ∉ release) (hcut : UpToCut label text)
      (htext : text ≠ "servicing".toList) (htext' : text ≠ "rtm".toList) :
      IsTag (release ++ '-' :: label) (release ++ '-' :: text)

/-- A label without a hyphen ends a text exactly if it is the label of the text. -/
theorem suffix_iff_eq (htext : '-' ∉ text) (hlabel : '-' ∉ label) :
    '-' :: label <:+ release ++ '-' :: text ↔ text = label := by
  constructor
  · rintro ⟨front, h⟩
    rcases List.append_eq_append_iff.1 h with ⟨more, rfl, hmore⟩ | ⟨more, rfl, hmore⟩
    · cases more with
      | nil => simpa using hmore.symm
      | cons c more =>
        rw [List.cons_append, List.cons.injEq] at hmore
        exact absurd (hmore.2 ▸ by simp) hlabel
    · cases more with
      | nil => simpa using hmore
      | cons c more =>
        rw [List.cons_append, List.cons.injEq] at hmore
        exact absurd (hmore.2 ▸ by simp) htext
  · rintro rfl
    exact List.suffix_append _ _

/-- The label of a build is dropped if it is the given one, and else nothing is. -/
theorem before?_label (htext : '-' ∉ text) (hlabel : '-' ∉ label) :
    before? ('-' :: label) (release ++ '-' :: text) = if text = label then some release else none := by
  split_ifs with h
  · rw [before?_eq_some, h]
  · rw [Option.eq_none_iff_forall_ne_some]
    intro front hfront
    exact h ((suffix_iff_eq htext hlabel).1 ⟨front, (before?_eq_some.1 hfront).symm⟩)

theorem dropEnding_stableLabels (htext : '-' ∉ text) : dropEnding stableLabels (release ++ '-' :: text) =
    if text = "servicing".toList ∨ text = "rtm".toList then release else release ++ '-' :: text := by
  have hservicing : before? ('-' :: "servicing".toList) (release ++ '-' :: text) =
      if text = "servicing".toList then some release else none := before?_label htext (by decide)
  have hrtm : before? ('-' :: "rtm".toList) (release ++ '-' :: text) =
      if text = "rtm".toList then some release else none := before?_label htext (by decide)
  have hlabels : stableLabels = ['-' :: "servicing".toList, '-' :: "rtm".toList] := rfl
  rw [hlabels, dropEnding, dropEnding, dropEnding, hservicing, hrtm]
  by_cases h : text = "servicing".toList
  · rw [if_pos h, Option.getD_some, if_pos (.inl h)]
  · by_cases h' : text = "rtm".toList
    · rw [if_neg h, if_pos h', Option.getD_none, Option.getD_some, if_pos (.inr h')]
    · rw [if_neg h, if_neg h', Option.getD_none, Option.getD_none, if_neg (not_or.2 ⟨h, h'⟩)]

/-- The tag is computed as it is said here. -/
theorem tagChars_eq_iff : tagChars v = t ↔ IsTag v t := by
  unfold tagChars
  constructor
  · rintro rfl
    split
    · rename_i hcut
      exact .plain (cut_eq_none.1 hcut)
    · rename_i release label hcut
      obtain ⟨rfl, hrelease⟩ := cut_eq_some.1 hcut
      have hlabel := upToCut_tagLabel label
      rw [dropEnding_stableLabels hlabel.notMem]
      split_ifs with hstable
      · exact .stable hrelease hlabel hstable
      · rw [not_or] at hstable
        exact .labelled hrelease hlabel hstable.1 hstable.2
  · intro h
    cases h with
    | plain h => rw [cut_eq_none.2 h]
    | stable h hcut htext =>
      rw [cut_eq_some.2 ⟨rfl, h⟩]
      simp only [hcut.tagLabel_eq, dropEnding_stableLabels hcut.notMem, if_pos htext]
    | labelled h hcut htext htext' =>
      rw [cut_eq_some.2 ⟨rfl, h⟩]
      simp only [hcut.tagLabel_eq, dropEnding_stableLabels hcut.notMem, if_neg (not_or.2 ⟨htext, htext'⟩)]

theorem tag_eq_iff {v t : String} : tag v = t ↔ IsTag v.toList t.toList := by
  rw [← String.toList_inj, tag, String.toList_ofList, tagChars_eq_iff]

/-- A build begins with its tag, which has everything before the first hyphen. -/
theorem IsTag.isFront (h : IsTag v t) : IsFront t v := by
  cases h with
  | plain h => exact ⟨⟨_, upTo_append_onward ['-'] v⟩, List.prefix_rfl⟩
  | stable h => exact isFront_of_hyphen h List.prefix_rfl (List.prefix_append _ _)
  | labelled h hcut =>
    refine isFront_of_hyphen h (List.prefix_append _ _) ?_
    rw [List.prefix_append_right_inj, List.prefix_cons_inj]
    exact hcut.isPrefix

theorem IsTag.count_le (h : IsTag v t) : t.count '-' ≤ 1 := by
  cases h with
  | plain h | stable h => simp [List.count_eq_zero_of_not_mem h]
  | labelled h hcut => simp [List.count_eq_zero_of_not_mem h, List.count_eq_zero_of_not_mem hcut.notMem]

theorem IsTag.not_suffix (h : IsTag v t) (hlabel : label = "servicing".toList ∨ label = "rtm".toList) :
    ¬ '-' :: label <:+ t := by
  have hhyphen : '-' ∉ label := by rcases hlabel with rfl | rfl <;> decide
  cases h with
  | plain h | stable h => exact fun hend => h (hend.subset List.mem_cons_self)
  | labelled h hcut htext htext' =>
    rw [suffix_iff_eq hcut.notMem hhyphen]
    rintro rfl
    exact hlabel.elim htext htext'

/-- **A tag is the front of its build**: it is the tag as it is said above and no other text, the build begins with it,
it has all that the build has before its first hyphen, at most one hyphen, and no label of a stable build at its end. -/
theorem tag_iff_isTag (v : String) : (∀ t, tag v = t ↔ IsTag v.toList t.toList) ∧
    IsFront (tag v).toList v.toList ∧ (tag v).toList.count '-' ≤ 1 ∧
    ¬ "-servicing".toList <:+ (tag v).toList ∧ ¬ "-rtm".toList <:+ (tag v).toList := by
  have htag : IsTag v.toList (tag v).toList := tag_eq_iff.1 rfl
  exact ⟨fun t => tag_eq_iff, htag.isFront, htag.count_le, htag.not_suffix (.inl rfl), htag.not_suffix (.inr rfl)⟩

-- a label of a stable build is one only up to the cut
example : tag "9.0.0-rc.1-rtm" = "9.0.0-rc.1" ∧ tag "9.0.0-rtm.1-rc" = "9.0.0-rtm.1" := by decide

end Upkeep.Version
