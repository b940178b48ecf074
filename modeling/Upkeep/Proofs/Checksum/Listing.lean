import Mathlib.Data.List.Dedup
import Upkeep.Checksum.Listing
import Upkeep.Proofs.Text.Cuts

/-!
# What a listing lists

A listing is written line by line: its entries in their order, and between them lines that are blank or have
another shape. However the lines end, and with or without a heading, the text is read as these entries, and the
first of a file is the one that counts.

* `IsEntry`: a digest and a file name that can be written as an entry.
* `Lists`: the lines on which entries are written.
* `Headed`: the lines with or without a heading.
* `takeLine_entry`, `takeLine_filler`: what each line adds.
* `parse_written`: **a listing is read as it was written**.
-/

namespace Upkeep.Checksum

open Text

variable {line : List Char} {digest file name text : String} {entries : List (String × String)}
  {ls rows : List (List Char)} {l : Listing}

/-! ### Lines of a listing -/

/-- A line splits on single spaces into two parts, neither of them empty. -/
def IsPair (line digest file : List Char) : Prop :=
  line = digest ++ ' ' :: file ∧ digest ≠ [] ∧ file ≠ [] ∧ ' ' ∉ digest ∧ ' ' ∉ file

/-- A line that adds nothing: it is blank or splits in another way. -/
def IsFiller (line : List Char) : Prop :=
  (∀ c ∈ line, isBlank c = true) ∨ ¬ ∃ digest file, IsPair line digest file

/-- A digest and a file name that can be written as an entry: they are not empty, hold no space and no end of a
line, and something of them can be seen. -/
@[mk_iff]
structure IsEntry (digest file : String) : Prop where
  digest_ne : digest.toList ≠ []
  file_ne : file.toList ≠ []
  plain : ∀ c ∈ digest.toList ++ file.toList, c ≠ ' ' ∧ c ≠ '\n' ∧ c ≠ '\r'
  seen : ∃ c ∈ digest.toList ++ file.toList, isBlank c = false

/-- The lines on which entries, digest and file name, are written in their order, with any fillers between them. -/
inductive Lists : List (String × String) → List (List Char) → Prop where
  | nothing : Lists [] []
  | filler {line : List Char} {entries : List (String × String)} {ls : List (List Char)} (hline : IsFiller line)
      (h : Lists entries ls) : Lists entries (line :: ls)
  | entry {digest file : String} {entries : List (String × String)} {ls : List (List Char)}
      (hentry : IsEntry digest file) (h : Lists entries ls) :
      Lists ((digest, file) :: entries) ((digest.toList ++ ' ' :: file.toList) :: ls)

/-- Lines with a heading or without one. Without one the first line does not speak of a hash. -/
inductive Headed (rows : List (List Char)) : List (List Char) → Prop where
  | heading {line : List Char} (hline : "Hash".toList <:+: line) : Headed rows (line :: rows)
  | bare (hline : ∀ line ∈ rows.head?, ¬ "Hash".toList <:+: line) : Headed rows rows

theorem entry?_eq_some {d f : String} : entry? line = some (d, f) ↔
    ∃ digest file, IsPair line digest file ∧ d = String.ofList (lower digest) ∧ f = String.ofList file := by
  unfold entry? IsPair
  constructor
  · intro h
    split at h
    · rename_i digest file hfields
      split_ifs at h with hempty
      obtain ⟨rfl, rfl⟩ := Prod.mk.inj (Option.some.inj h)
      rw [not_or] at hempty
      obtain ⟨hline, hdigest, hfile⟩ := fields_eq_pair.1 hfields
      exact ⟨digest, file, ⟨hline, hempty.1, hempty.2, hdigest, hfile⟩, rfl, rfl⟩
    · cases h
  · rintro ⟨digest, file, ⟨rfl, hdigest, hfile, hplain⟩, rfl, rfl⟩
    rw [fields_eq_pair.2 ⟨rfl, hplain⟩]
    exact if_neg (not_or.2 ⟨hdigest, hfile⟩)

instance (line : List Char) : Decidable (∃ digest file, IsPair line digest file) :=
  decidable_of_iff (( entry? line).isSome = true) <| by
    rw [Option.isSome_iff_exists]
    constructor
    · rintro ⟨⟨d, f⟩, h⟩
      obtain ⟨digest, file, hpair, -⟩ := entry?_eq_some.1 h
      exact ⟨digest, file, hpair⟩
    · rintro ⟨digest, file, hpair⟩
      exact ⟨_, entry?_eq_some.2 ⟨digest, file, hpair, rfl, rfl⟩⟩

instance (line : List Char) : Decidable (IsFiller line) :=
  decidable_of_iff (line.all isBlank = true ∨ ¬ ∃ digest file, IsPair line digest file)
    (by simp only [List.all_eq_true, IsFiller])

instance (digest file : String) : Decidable (IsEntry digest file) :=
  decidable_of_iff (digest.toList ≠ [] ∧ file.toList ≠ [] ∧
      (digest.toList ++ file.toList).all (! [' ', '\n', '\r'].contains ·) = true ∧
      (digest.toList ++ file.toList).any (! isBlank ·) = true) <| by
    have hplain (l : List Char) : l.all (! [' ', '\n', '\r'].contains ·) = true ↔
        ∀ c ∈ l, c ≠ ' ' ∧ c ≠ '\n' ∧ c ≠ '\r' := by simp
    have hseen (l : List Char) : l.any (! isBlank ·) = true ↔ ∃ c ∈ l, isBlank c = false := by simp
    rw [hplain, hseen, isEntry_iff]

/-- A line that adds nothing does so too without the carriage returns at its end. -/
theorem IsFiller.dropEnd (h : IsFiller line) : IsFiller (dropEnd '\r' line) := by
  obtain ⟨run, hrun, hall⟩ := exists_dropEnd '\r' line
  rcases h with hblank | hshape
  · refine .inl fun c hc => hblank c ?_
    rw [hrun]
    exact List.mem_append_left _ hc
  · refine .inr ?_
    rintro ⟨digest, file, hline, hdigest, hfile, hspace, hspace'⟩
    refine hshape ⟨digest, file ++ run, ?_, hdigest, by simp [hfile], hspace, ?_⟩
    · rw [hline] at hrun
      simpa using hrun
    · rw [List.mem_append, not_or]
      exact ⟨hspace', fun hc => absurd (hall ' ' hc) (by decide)⟩

theorem takeLine_filler (h : IsFiller line) : l.takeLine line = l := by
  unfold Listing.takeLine
  dsimp only
  split_ifs with htrim
  · rfl
  · have hshape := h.dropEnd.resolve_left (mt trim_eq_nil.2 htrim)
    split
    · rename_i digest file hentry
      obtain ⟨d, f, hpair, -⟩ := entry?_eq_some.1 hentry
      exact absurd ⟨d, f, hpair⟩ hshape
    · rfl

theorem takeLine_entry (h : IsEntry digest file) :
    l.takeLine (digest.toList ++ ' ' :: file.toList) = l.record (String.ofList (lower digest.toList)) file := by
  have hplain (t : List Char) (ht : t ⊆ digest.toList ++ file.toList) : ' ' ∉ t ∧ '\r' ∉ t :=
    ⟨fun hc => (h.plain _ (ht hc)).1 rfl, fun hc => (h.plain _ (ht hc)).2.2 rfl⟩
  obtain ⟨hspace, hreturn⟩ := hplain _ (List.subset_append_left _ _)
  obtain ⟨hspace', hreturn'⟩ := hplain _ (List.subset_append_right _ _)
  have hend : dropEnd '\r' (digest.toList ++ ' ' :: file.toList) = digest.toList ++ ' ' :: file.toList :=
    dropEnd_of_notMem (by simp [hreturn, hreturn'])
  have hseen : trim (digest.toList ++ ' ' :: file.toList) ≠ [] := by
    intro htrim
    obtain ⟨c, hc, hseen⟩ := h.seen
    have hblank : isBlank c = true := trim_eq_nil.1 htrim c (by
      rcases List.mem_append.1 hc with hc | hc <;> simp [hc])
    rw [hseen] at hblank
    cases hblank
  have hentry : entry? (digest.toList ++ ' ' :: file.toList) =
      some (String.ofList (lower digest.toList), file) :=
    entry?_eq_some.2 ⟨_, _, ⟨rfl, h.digest_ne, h.file_ne, hspace, hspace'⟩, rfl, by simp⟩
  unfold Listing.takeLine
  dsimp only
  rw [hend, if_neg hseen, hentry]

/-! ### All lines -/

/-- What lines add: each file has the digest that it had, or else that of its first entry. -/
theorem get?_takeLines (h : Lists entries ls) (l : Listing) (name : String) :
    (ls.foldl Listing.takeLine l).get? name = (l.get? name).or
      ((entries.find? (·.2 = name)).map fun entry => String.ofList (lower entry.1.toList)) := by
  induction h generalizing l with
  | nothing => simp
  | filler hline _ ih => rw [List.foldl_cons, takeLine_filler hline, ih]
  | @entry digest file entries ls hentry _ ih =>
    rw [List.foldl_cons, takeLine_entry hentry, ih, Listing.get?_record]
    by_cases hname : file = name
    · cases hl : l.get? name <;> simp [hname]
    · simp [hname]

/-- A listing has as many entries as there are files with a digest. -/
theorem size_eq {names : List String} (h : ∀ name, (l.get? name).isSome = true ↔ name ∈ names) :
    l.size = names.dedup.length := by
  have hkeys (name : String) : name ∈ l.digests.keys ↔ name ∈ names.dedup := by
    rw [Std.ExtTreeMap.mem_keys, Std.ExtTreeMap.mem_iff_isSome_getElem?, List.mem_dedup]
    exact h name
  have hperm : l.digests.keys.Perm names.dedup :=
    (List.perm_ext_iff_of_nodup Std.ExtTreeMap.nodup_keys (List.nodup_dedup names)).2 hkeys
  rw [Listing.size, ← Std.ExtTreeMap.length_keys, hperm.length_eq]

theorem isHeading_iff : Listing.isHeading line = true ↔ "Hash".toList <:+: line := by
  rw [Listing.isHeading, occurs_iff, infix_dropEnd_iff (by decide)]

/-- A heading is left out. -/
theorem Headed.body_eq (h : Headed rows ls) : Listing.body ls = rows := by
  cases h with
  | heading hline => rw [Listing.body, if_pos (isHeading_iff.2 hline)]
  | bare hline =>
    cases ls with
    | nil => rfl
    | cons line ls => rw [Listing.body, if_neg (mt isHeading_iff.1 (hline line rfl))]

/-- **A listing is read as it was written**: each file that is listed has the digest of its first entry in lower
case, no other file has any, and there are as many entries as files that are listed. -/
theorem parse_written (hrows : Lists entries rows) (hhead : Headed rows ls) (htext : Lined ls text.toList) :
    (∀ name, (Listing.parse text).get? name =
      (entries.find? (·.2 = name)).map fun entry => String.ofList (lower entry.1.toList)) ∧
    (Listing.parse text).size = (entries.map (·.2)).dedup.length := by
  have hparse : Listing.parse text = rows.foldl Listing.takeLine .empty := by
    rw [Listing.parse, lines_eq_iff.2 htext, hhead.body_eq]
  have hget (name : String) : (Listing.parse text).get? name =
      (entries.find? (·.2 = name)).map fun entry => String.ofList (lower entry.1.toList) := by
    rw [hparse, get?_takeLines hrows]
    simp [Listing.empty, Listing.get?]
  refine ⟨hget, size_eq fun name => ?_⟩
  rw [hget, Option.isSome_map, List.find?_isSome]
  simp

/-- A heading, a blank line, a line of three parts, both ways to end a line, and a file that is listed twice. -/
theorem parse_written_mixed :
    Lists [("ABCD", "a.zip"), ("ef", "b.zip"), ("ff", "a.zip")]
      ["ABCD a.zip".toList, [], "ef b.zip extra".toList, "ef b.zip".toList, "ff a.zip".toList] ∧
    ∀ listing, listing = Listing.parse "Hash: SHA512\r\nABCD a.zip\r\n\nef b.zip extra\nef b.zip\r\nff a.zip" →
      listing.get? "a.zip" = some "abcd" ∧ listing.get? "b.zip" = some "ef" ∧
        listing.get? "extra" = none ∧ listing.size = 2 := by
  have hrows : Lists [("ABCD", "a.zip"), ("ef", "b.zip"), ("ff", "a.zip")]
      ["ABCD a.zip".toList, [], "ef b.zip extra".toList, "ef b.zip".toList, "ff a.zip".toList] := by
    refine .entry (by decide) ?_
    refine .filler (.inl (by simp)) ?_
    refine .filler (.inr (by decide)) ?_
    refine .entry (by decide) ?_
    exact .entry (by decide) .nothing
  have hhead (rows : List (List Char)) : Headed rows ("Hash: SHA512".toList :: rows) := .heading (by decide)
  have htext : Lined ["Hash: SHA512".toList, "ABCD a.zip".toList, [], "ef b.zip extra".toList, "ef b.zip".toList,
      "ff a.zip".toList]
      "Hash: SHA512\r\nABCD a.zip\r\n\nef b.zip extra\nef b.zip\r\nff a.zip".toList := by decide +kernel
  refine ⟨hrows, ?_⟩
  rintro _ rfl
  obtain ⟨hget, hsize⟩ := parse_written hrows (hhead _) htext
  simp only [hget]
  exact ⟨by decide, by decide, by decide, hsize⟩

end Upkeep.Checksum
