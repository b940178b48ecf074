import Mathlib.Data.List.Nodup
import Upkeep.Proofs.Text.Cuts
import Upkeep.Release

/-!
# What the notes of a release tell

Notes give a digest for a file on a line that holds both, in a table or in a plain list, with anything around. The
tokens of a line are said here without the scanner that finds them, and so is such a row. However the rows are laid
out, and whatever else the notes hold, each file is given the digest of its own row.

* `IsToken`, `mem_tokens`: **the tokens of a line** are its words without emphasis.
* `isToken_iff_of_lined`: the tokens of notes are those of their lines.
* `IsRow`, `IsRow.tokens_eq`: a row has two tokens.
* `Tabulates`: notes that hold rows.
* `checksum?_of_tabulates`: **each file has the digest of its own row**, and a file that is not named has none.
-/

namespace Upkeep.Release

open Text

variable {s t w line name digest other : List Char} {ls : List (List Char)}
  {rows : List (String × String)} {row : String × String} {r : Release} {body : String}

/-! ### Tokens -/

/-- What stands between the tokens of a line: blanks and bars. -/
def isSeparator (c : Char) : Bool := c == '|' || isBlank c

/-- A text is not empty and neither begins nor ends with emphasis. -/
@[mk_iff]
structure IsBare (t : List Char) : Prop where
  ne_nil : t ≠ []
  head : ∀ c ∈ t.head?, isMarkup c = false
  last : ∀ c ∈ t.getLast?, isMarkup c = false

instance (t : List Char) : Decidable (IsBare t) :=
  decidable_of_iff (t ≠ [] ∧ t.head?.all (! isMarkup ·) = true ∧ t.getLast?.all (! isMarkup ·) = true) <| by
    simp only [Option.all_eq_true, Bool.not_eq_true', isBare_iff, Option.mem_def]

/-- A text with emphasis around it, or with none. -/
def Emphasises (w t : List Char) : Prop :=
  ∃ left right, w = left ++ t ++ right ∧ ∀ c ∈ left ++ right, isMarkup c = true

/-- A token of a text: what one of its words is without the emphasis around it. -/
def IsToken (s t : List Char) : Prop := IsBare t ∧ ∃ w, IsWord isSeparator s w ∧ Emphasises w t

/-- The emphasis is taken off that is around a text. -/
theorem bare_eq_iff : bare w = t ∧ t ≠ [] ↔ IsBare t ∧ Emphasises w t := by
  constructor
  · rintro ⟨hbare, hne⟩
    obtain ⟨hlast, right, hmid, hright⟩ := dropWhile_eq_iff.1 (List.reverse_eq_iff.1 hbare)
    obtain ⟨hhead, left, rfl, hleft⟩ := dropWhile_eq_iff.1 (List.reverse_eq_iff.1 hmid)
    simp only [List.reverse_append, List.reverse_reverse, List.head?_append_of_ne_nil _ hne] at hhead
    rw [List.head?_reverse] at hlast
    refine ⟨⟨hne, hhead, hlast⟩, left, right.reverse, by simp, fun c hc => ?_⟩
    rcases List.mem_append.1 hc with hc | hc
    · exact hleft c hc
    · exact hright c (List.mem_reverse.1 hc)
  · rintro ⟨⟨hne, hhead, hlast⟩, left, right, rfl, hmarkup⟩
    obtain ⟨hleft, hright⟩ := List.forall_mem_append.1 hmarkup
    have hbegin : (left ++ t ++ right).dropWhile isMarkup = t ++ right := by
      rw [List.append_assoc, dropWhile_eq_iff, List.head?_append_of_ne_nil _ hne]
      exact ⟨hhead, left, rfl, hleft⟩
    have hend : (t ++ right).reverse.dropWhile isMarkup = t.reverse := by
      rw [List.reverse_append, dropWhile_eq_iff, List.head?_reverse]
      exact ⟨hlast, right.reverse, rfl, fun c hc => hright c (List.mem_reverse.1 hc)⟩
    rw [bare, hbegin, hend, List.reverse_reverse]
    exact ⟨rfl, hne⟩

theorem tokens_eq (line : List Char) :
    tokens line = ((wordsBy isSeparator line).map bare).filter (· ≠ []) := rfl

/-- **The tokens of a line** are its words without the emphasis around them. -/
theorem mem_tokens : t ∈ tokens line ↔ IsToken line t := by
  simp only [tokens_eq, List.mem_filter, List.mem_map, decide_eq_true_eq, mem_wordsBy]
  constructor
  · rintro ⟨⟨w, hw, hbare⟩, hne⟩
    obtain ⟨ht, hemph⟩ := bare_eq_iff.1 ⟨hbare, hne⟩
    exact ⟨ht, w, hw, hemph⟩
  · rintro ⟨ht, w, hw, hemph⟩
    obtain ⟨hbare, hne⟩ := bare_eq_iff.2 ⟨ht, hemph⟩
    exact ⟨⟨w, hw, hbare⟩, hne⟩

instance (s t : List Char) : Decidable (IsToken s t) :=
  decidable_of_iff ((tokens s).contains t = true) (List.contains_iff_mem.trans mem_tokens)

/-- The tokens of notes are those of their lines. -/
theorem isToken_iff_of_lined (h : Lined ls s) : IsToken s t ↔ ∃ line ∈ ls, IsToken line t := by
  have hwords : wordsBy isSeparator s = ls.flatMap (wordsBy isSeparator) := h.wordsBy_eq (by decide) (by decide)
  have hword (w : List Char) : IsWord isSeparator s w ↔ ∃ line ∈ ls, IsWord isSeparator line w := by
    simp only [← mem_wordsBy, hwords, List.mem_flatMap]
  constructor
  · rintro ⟨ht, w, hw, hemph⟩
    obtain ⟨line, hline, hw⟩ := (hword w).1 hw
    exact ⟨line, hline, ht, w, hw, hemph⟩
  · rintro ⟨line, hline, ht, w, hw, hemph⟩
    exact ⟨ht, w, (hword w).2 ⟨line, hline, hw⟩, hemph⟩

/-! ### Rows -/

/-- A digest: at least 32 hexadecimal digits. -/
def IsDigest (t : List Char) : Prop := 32 ≤ t.length ∧ ∀ c ∈ t, c ∈ "0123456789abcdefABCDEF".toList

theorem isDigest_iff : isDigest t = true ↔ IsDigest t := by
  simp only [isDigest, Bool.and_eq_true, decide_eq_true_eq, List.all_eq_true, isHexDigit_iff, IsDigest]

instance (t : List Char) : Decidable (IsDigest t) := decidable_of_iff _ isDigest_iff

/-- A text that can be a token. -/
structure IsPlain (t : List Char) : Prop extends IsBare t where
  whole : ∀ c ∈ t, isSeparator c = false

/-- A name that can stand in a row: it is no digest. -/
structure IsName (t : List Char) : Prop extends IsPlain t where
  not_digest : ¬ IsDigest t

instance (t : List Char) : Decidable (IsName t) :=
  decidable_of_iff (IsBare t ∧ t.all (! isSeparator ·) = true ∧ ¬ IsDigest t) <| by
    simp only [List.all_eq_true, Bool.not_eq_true']
    exact ⟨fun ⟨hbare, hwhole, hdigest⟩ => ⟨⟨hbare, hwhole⟩, hdigest⟩,
      fun ⟨⟨hbare, hwhole⟩, hdigest⟩ => ⟨hbare, hwhole, hdigest⟩⟩

/-- A line with one name and one digest, in either order, and nothing else than bars, blanks and emphasis. -/
def IsRow (name digest line : List Char) : Prop :=
  ∃ before first between second after, line = before ++ first ++ between ++ second ++ after ∧ between ≠ [] ∧
    (∀ c ∈ before ++ between ++ after, isSeparator c = true) ∧
    (Emphasises first name ∧ Emphasises second digest ∨ Emphasises first digest ∧ Emphasises second name)

theorem IsDigest.isPlain (h : IsDigest t) : IsPlain t := by
  have hplain : ∀ c ∈ "0123456789abcdefABCDEF".toList, isMarkup c = false ∧ isSeparator c = false :=
    List.forall_iff_forall_mem.1 (by decide)
  obtain ⟨hlength, hdigits⟩ := h
  refine ⟨⟨?_, fun c hc => (hplain c (hdigits c ?_)).1, fun c hc => (hplain c (hdigits c ?_)).1⟩, fun c hc =>
    (hplain c (hdigits c hc)).2⟩
  · rintro rfl
    simp at hlength
  · exact List.mem_of_head? hc
  · exact List.mem_of_getLast? hc

/-- A text that can be a token is one word with the emphasis around it. -/
theorem IsPlain.wordsBy_eq (h : IsPlain t) (hw : Emphasises w t) : wordsBy isSeparator w = [w] := by
  obtain ⟨left, right, rfl, hmarkup⟩ := hw
  have hsep (c : Char) (hc : isMarkup c = true) : isSeparator c = false := by
    simp only [isMarkup, Bool.or_eq_true, beq_iff_eq] at hc
    rcases hc with rfl | rfl <;> decide
  refine wordsBy_of_word (by simp [h.ne_nil]) fun c hc => ?_
  simp only [List.mem_append] at hc hmarkup
  rcases hc with (hc | hc) | hc
  · exact hsep c (hmarkup c (.inl hc))
  · exact h.whole c hc
  · exact hsep c (hmarkup c (.inr hc))

/-- A line of two texts has them as its tokens. -/
theorem tokens_pair {before between after v w u t : List Char} (hne : between ≠ [])
    (hsep : ∀ c ∈ before ++ between ++ after, isSeparator c = true) (hu : IsPlain u) (ht : IsPlain t)
    (hv : Emphasises v u) (hw : Emphasises w t) :
    tokens (before ++ v ++ between ++ w ++ after) = [u, t] := by
  simp only [List.mem_append] at hsep
  have hbefore : ∀ c ∈ before, isSeparator c = true := fun c hc => hsep c (.inl (.inl hc))
  have hbetween : ∀ c ∈ between, isSeparator c = true := fun c hc => hsep c (.inl (.inr hc))
  have hafter : ∀ c ∈ after, isSeparator c = true := fun c hc => hsep c (.inr hc)
  have hwords : wordsBy isSeparator (before ++ v ++ between ++ w ++ after) = [v, w] := by
    rw [wordsBy_append_separators hafter, wordsBy_append_separators_append hne hbetween,
      wordsBy_separators_append hbefore, hu.wordsBy_eq hv, ht.wordsBy_eq hw]
    rfl
  have hbare (x y : List Char) (hx : Emphasises x y) (hy : IsPlain y) : bare x = y :=
    (bare_eq_iff.2 ⟨hy.toIsBare, hx⟩).1
  rw [tokens_eq, hwords]
  simp [hbare _ _ hv hu, hbare _ _ hw ht, hu.ne_nil, ht.ne_nil]

/-- A row has two tokens. -/
theorem IsRow.tokens_eq (h : IsRow name digest line) (hname : IsPlain name) (hdigest : IsPlain digest) :
    tokens line = [name, digest] ∨ tokens line = [digest, name] := by
  obtain ⟨before, first, between, second, after, rfl, hne, hsep, ⟨hfirst, hsecond⟩ | ⟨hfirst, hsecond⟩⟩ := h
  · exact .inl (tokens_pair hne hsep hname hdigest hfirst hsecond)
  · exact .inr (tokens_pair hne hsep hdigest hname hfirst hsecond)

/-- A row names nothing but its file. -/
theorem IsRow.eq_of_isToken (h : IsRow name digest line) (hname : IsName name) (hdigest : IsDigest digest)
    (hother : IsToken line other) (hnot : ¬ IsDigest other) : other = name := by
  rw [← mem_tokens] at hother
  have hne : other ≠ digest := fun heq => hnot (heq ▸ hdigest)
  rcases h.tokens_eq hname.toIsPlain hdigest.isPlain with htokens | htokens <;>
    simpa [htokens, hne] using hother

/-- A row gives its digest for its file. -/
theorem IsRow.lineChecksum?_eq (h : IsRow name digest line) (hname : IsName name) (hdigest : IsDigest digest) :
    lineChecksum? name line = some (lowerAscii digest) := by
  have hyes : isDigest digest = true := isDigest_iff.2 hdigest
  have hno : isDigest name = false := Bool.eq_false_iff.2 (mt isDigest_iff.1 hname.not_digest)
  rcases h.tokens_eq hname.toIsPlain hdigest.isPlain with htokens | htokens <;>
    simp [lineChecksum?, htokens, hyes, hno]

/-- A line gives nothing for a name that is no token of it. -/
theorem lineChecksum?_of_not_isToken (h : ¬ IsToken line name) : lineChecksum? name line = none := by
  rw [← mem_tokens] at h
  exact if_neg (by simpa using h)

/-! ### Notes -/

/-- Lines that hold rows of file names and digests. No name has two rows. Every row is written, in whatever order,
and where a line is none it does not speak of the files. -/
structure Tabulates (rows : List (String × String)) (ls : List (List Char)) : Prop where
  names : ∀ row ∈ rows, IsName row.1.toList
  digests : ∀ row ∈ rows, IsDigest row.2.toList
  distinct : (rows.map (·.1)).Nodup
  written : ∀ row ∈ rows, ∃ line ∈ ls, IsRow row.1.toList row.2.toList line
  others : ∀ line ∈ ls, (∃ row ∈ rows, IsRow row.1.toList row.2.toList line) ∨
    ∀ row ∈ rows, ¬ IsToken line row.1.toList

/-- A line gives for a file the digest of its row, or nothing. -/
theorem Tabulates.lineChecksum?_eq_or (h : Tabulates rows ls) (hrow : row ∈ rows) (hline : line ∈ ls) :
    lineChecksum? row.1.toList line = none ∨ lineChecksum? row.1.toList line = some (lowerAscii row.2.toList) := by
  by_cases htoken : IsToken line row.1.toList
  · right
    rcases h.others line hline with ⟨row', hrow', hline'⟩ | hnone
    · have hname : row.1.toList = row'.1.toList :=
        hline'.eq_of_isToken (h.names _ hrow') (h.digests _ hrow') htoken (h.names _ hrow).not_digest
      obtain rfl : row = row' := List.inj_on_of_nodup_map h.distinct hrow hrow' (String.toList_injective hname)
      exact hline'.lineChecksum?_eq (h.names _ hrow) (h.digests _ hrow)
    · exact absurd htoken (hnone row hrow)
  · exact .inl (lineChecksum?_of_not_isToken htoken)

/-- **Each file has the digest of its own row**, in lower case, and a file that the notes do not name has none. -/
theorem checksum?_of_tabulates (hbody : r.body = some body) (hls : Lined ls body.toList) (h : Tabulates rows ls) :
    (∀ row ∈ rows, r.checksum? row.1 = some (String.ofList (lowerAscii row.2.toList))) ∧
      ∀ name, ¬ IsToken body.toList name.toList → r.checksum? name = none := by
  have hchecksum (name : String) :
      r.checksum? name = (ls.findSome? (lineChecksum? name.toList)).map String.ofList := by
    simp only [checksum?, hbody, lines_eq_iff.2 hls]
  refine ⟨fun row hrow => ?_, fun name hname => ?_⟩
  · obtain ⟨line, hline, hwritten⟩ := h.written row hrow
    have hfound : (ls.findSome? (lineChecksum? row.1.toList)).isSome = true := by
      rw [List.findSome?_isSome_iff]
      refine ⟨line, hline, ?_⟩
      rw [hwritten.lineChecksum?_eq (h.names row hrow) (h.digests row hrow), Option.isSome_some]
    obtain ⟨d, hd⟩ := Option.isSome_iff_exists.1 hfound
    obtain ⟨line', hline', hd'⟩ := List.exists_of_findSome?_eq_some hd
    rw [hchecksum, hd]
    -- the line that answers may be another one with this row, never a row of another file
    rcases h.lineChecksum?_eq_or hrow hline' with hnone | hsome
    · simp [hnone] at hd'
    · rw [hd'] at hsome
      rw [Option.some.inj hsome, Option.map_some]
  · have hnone : ls.findSome? (lineChecksum? name.toList) = none := by
      rw [List.findSome?_eq_none_iff]
      intro line hline
      exact lineChecksum?_of_not_isToken fun htoken => hname ((isToken_iff_of_lined hls).2 ⟨line, hline, htoken⟩)
    rw [hchecksum, hnone, Option.map_none]

/-- Notes with a table row, a plain line and a heading; the name in one row ends with the name in the other. -/
def nested : Release where
  tag := "v1"
  body := some "# Files\r\n| `b.zip` | **0123456789ABCDEF0123456789ABCDEF** |\n\nffffffffffffffffffffffffffffffff  a.b.zip"
  assets := []

theorem checksum?_of_tabulates_nested :
    nested.checksum? "a.b.zip" = some "ffffffffffffffffffffffffffffffff" ∧
      nested.checksum? "b.zip" = some "0123456789abcdef0123456789abcdef" ∧ nested.checksum? "zip" = none := by
  have hlong : IsRow "a.b.zip".toList "ffffffffffffffffffffffffffffffff".toList
      "ffffffffffffffffffffffffffffffff  a.b.zip".toList := by
    refine ⟨[], "ffffffffffffffffffffffffffffffff".toList, "  ".toList, "a.b.zip".toList, [], by decide, by decide,
      List.all_eq_true.1 (by decide), .inr ⟨⟨[], [], by decide, ?_⟩, [], [], by decide, ?_⟩⟩
    · exact List.all_eq_true.1 (by decide)
    · exact List.all_eq_true.1 (by decide)
  have hshort : IsRow "b.zip".toList "0123456789ABCDEF0123456789ABCDEF".toList
      "| `b.zip` | **0123456789ABCDEF0123456789ABCDEF** |".toList := by
    refine ⟨"| ".toList, "`b.zip`".toList, " | ".toList, "**0123456789ABCDEF0123456789ABCDEF**".toList, " |".toList,
      by decide, by decide, List.all_eq_true.1 (by decide),
      .inl ⟨⟨"`".toList, "`".toList, by decide, ?_⟩, "**".toList, "**".toList, by decide, ?_⟩⟩
    · exact List.all_eq_true.1 (by decide)
    · exact List.all_eq_true.1 (by decide)
  have hrows : Tabulates [("a.b.zip", "ffffffffffffffffffffffffffffffff"),
      ("b.zip", "0123456789ABCDEF0123456789ABCDEF")]
      ["# Files".toList, "| `b.zip` | **0123456789ABCDEF0123456789ABCDEF** |".toList, [],
        "ffffffffffffffffffffffffffffffff  a.b.zip".toList] := by
    refine ⟨by decide, by decide, by decide, ?_, ?_⟩
    · rw [List.forall_mem_cons, List.forall_mem_singleton]
      exact ⟨⟨_, by simp, hlong⟩, _, by simp, hshort⟩
    · intro line hline
      simp only [List.mem_cons, List.not_mem_nil, or_false] at hline
      rcases hline with rfl | rfl | rfl | rfl
      · exact .inr (by decide)
      · exact .inl ⟨_, List.mem_cons_of_mem _ List.mem_cons_self, hshort⟩
      · exact .inr (by decide)
      · exact .inl ⟨_, List.mem_cons_self, hlong⟩
  obtain ⟨hsome, hnone⟩ := checksum?_of_tabulates (r := nested) rfl (by decide +kernel) hrows
  refine ⟨?_, ?_, hnone "zip" (by decide +kernel)⟩
  · exact (hsome _ List.mem_cons_self).trans (congrArg some (by decide +kernel))
  · exact (hsome _ (List.mem_cons_of_mem _ List.mem_cons_self)).trans (congrArg some (by decide +kernel))

end Upkeep.Release
