import Mathlib.Data.List.TakeWhile
import Upkeep.Text.Blank
import Upkeep.Text.Search

/-!
# How a text is cut

A text is cut into lines, into the fields between the occurrences of a separator, and into words, where any number
of separators counts as one. What each of these cuts gives is said here without the scanner that makes it.

* `occurs_iff`: a text stands in another.
* `dropWhile_eq_iff`: a run at the beginning of a text.
* `Trims`, `trim_eq_iff`: a text without the blanks at its ends.
* `onward`, `upTo_append_onward`: a text is cut at the first of several stops.
* `afterLast_eq_iff`: what follows the last separator.
* `fields_eq_pair`: a text of two fields.
* `Lined`, `lines_eq_iff`: **a text is read as the lines of which it is made**.
* `IsWord`, `mem_wordsBy`: **the words of a text** are its longest runs without separators.
-/

namespace Upkeep.Text

variable {s t line pat : List Char} {ls : List (List Char)} {c : Char}

/-! ### Parts -/

/-- A text stands in another. -/
theorem occurs_iff : occurs pat s = true ↔ pat <:+: s := by
  induction s with
  | nil => simp [occurs]
  | cons c s ih =>
    rw [occurs, Bool.or_eq_true, ih, List.isPrefixOf_iff_prefix, List.infix_cons_iff]

/-- A run of characters that satisfy a predicate ends where the first one does not. -/
theorem takeWhile_run {p : Char → Bool} {run : List Char} (hrun : ∀ c ∈ run, p c = true)
    (hstop : ∀ c ∈ t.head?, p c = false) : (run ++ t).takeWhile p = run ∧ (run ++ t).dropWhile p = t := by
  rw [List.takeWhile_append_of_pos hrun, List.dropWhile_append_of_pos hrun]
  cases t with
  | nil => simp
  | cons c t => simp [hstop c rfl]

/-- What is dropped at the beginning of a text is a longest run of characters that satisfy a predicate. -/
theorem dropWhile_eq_iff {p : Char → Bool} : s.dropWhile p = t ↔
    (∀ c ∈ t.head?, p c = false) ∧ ∃ run, s = run ++ t ∧ ∀ c ∈ run, p c = true := by
  constructor
  · rintro rfl
    refine ⟨fun c hc => ?_, s.takeWhile p, List.takeWhile_append_dropWhile.symm, fun c => List.mem_takeWhile_imp⟩
    have hhead := List.head?_dropWhile_not p s
    rw [Option.mem_def.1 hc] at hhead
    exact hhead
  · rintro ⟨hstop, run, rfl, hrun⟩
    exact (takeWhile_run hrun hstop).2

/-- What is dropped at the end of a text is a run of one character. -/
theorem exists_dropEnd (c : Char) (s : List Char) : ∃ run, s = dropEnd c s ++ run ∧ ∀ d ∈ run, d = c := by
  obtain ⟨-, run, hsplit, hrun⟩ := dropWhile_eq_iff.1 (rfl : s.reverse.dropWhile (· = c) = _)
  refine ⟨run.reverse, ?_, fun d hd => ?_⟩
  · rw [dropEnd, ← List.reverse_append, ← hsplit, List.reverse_reverse]
  · simpa using hrun d (List.mem_reverse.1 hd)

theorem dropEnd_of_notMem (h : c ∉ s) : dropEnd c s = s := by
  obtain ⟨run, hrun, hall⟩ := exists_dropEnd c s
  cases run with
  | nil => simpa using hrun.symm
  | cons d run =>
    have hd : d ∈ s := by rw [hrun]; simp
    exact absurd (hall d List.mem_cons_self ▸ hd) h

/-- A text without a character stands in another with or without that character at its end. -/
theorem infix_dropEnd_iff (h : c ∉ pat) : pat <:+: dropEnd c s ↔ pat <:+: s := by
  obtain ⟨run, hrun, hall⟩ := exists_dropEnd c s
  have hempty (l : List Char) (hpat : l ⊆ pat) (hl : l ⊆ run) : l = [] :=
    List.eq_nil_iff_forall_not_mem.2 fun d hd => h (hall d (hl hd) ▸ hpat hd)
  constructor
  · intro hin
    rw [hrun]
    exact hin.trans (List.prefix_append _ _).isInfix
  · intro hin
    rw [hrun, List.infix_append_iff] at hin
    rcases hin with hin | hin | ⟨front, back, rfl, hfront, hback⟩
    · exact hin
    · rw [hempty pat (List.Subset.refl _) hin.subset]
      exact List.nil_infix
    · rw [hempty back (List.subset_append_right _ _) hback.subset, List.append_nil]
      exact hfront.isInfix

/-- A text is trimmed to nothing when it is blank. -/
theorem trim_eq_nil : trim s = [] ↔ ∀ c ∈ s, isBlank c = true := by
  rw [trim, List.reverse_eq_nil_iff, List.dropWhile_eq_nil_iff]
  simp only [List.mem_reverse]
  constructor
  · intro h c hc
    rw [← List.takeWhile_append_dropWhile (p := isBlank) (l := s), List.mem_append] at hc
    rcases hc with hc | hc
    · exact List.mem_takeWhile_imp hc
    · exact h c hc
  · exact fun h c hc => h c (List.dropWhile_subset _ hc)

/-- What is left of a text without the blanks at its ends. -/
def Trims (s t : List Char) : Prop :=
  ∃ before after, s = before ++ t ++ after ∧ (∀ c ∈ before, isBlank c = true) ∧ (∀ c ∈ after, isBlank c = true) ∧
    (∀ c ∈ t.head?, isBlank c = false) ∧ ∀ c ∈ t.getLast?, isBlank c = false

theorem trims_trim (s : List Char) : Trims s (trim s) := by
  obtain ⟨hfirst, before, hbefore, hblank⟩ := dropWhile_eq_iff.1 (rfl : s.dropWhile isBlank = _)
  obtain ⟨hlast, after, hafter, hblank'⟩ :=
    dropWhile_eq_iff.1 (rfl : (s.dropWhile isBlank).reverse.dropWhile isBlank = _)
  have hrest : s.dropWhile isBlank = trim s ++ after.reverse := by
    rw [trim, ← List.reverse_append, ← hafter, List.reverse_reverse]
  refine ⟨before, after.reverse, ?_, hblank, by simpa using hblank', fun c hc => hfirst c ?_, ?_⟩
  · rw [List.append_assoc, ← hrest]
    exact hbefore
  · rw [hrest, List.head?_append, Option.mem_def.1 hc]
    rfl
  · rwa [trim, List.getLast?_reverse]

/-- A text is trimmed to what is left of it without the blanks at its ends. -/
theorem trim_eq_iff : trim s = t ↔ Trims s t := by
  constructor
  · rintro rfl
    exact trims_trim s
  · rintro ⟨before, after, rfl, hbefore, hafter, hfirst, hlast⟩
    cases t with
    | nil => simpa [trim_eq_nil, or_imp, forall_and] using ⟨hbefore, hafter⟩
    | cons c t =>
      have hdrop : (before ++ (c :: t) ++ after).dropWhile isBlank = c :: t ++ after := by
        rw [List.append_assoc]
        exact (takeWhile_run hbefore (by simpa using hfirst)).2
      have hdrop' : (c :: t ++ after).reverse.dropWhile isBlank = (c :: t).reverse := by
        rw [List.reverse_append]
        exact (takeWhile_run (by simpa using hafter) (by rwa [List.head?_reverse])).2
      rw [trim, hdrop, hdrop', List.reverse_reverse]

theorem after?_eq_none {lead : List Char} : after? lead s = none ↔ ¬ lead <+: s := by
  rw [Option.eq_none_iff_forall_ne_some, List.IsPrefix, not_exists]
  exact forall_congr' fun rest => not_congr (after?_eq_some.trans eq_comm)

theorem before?_eq_some {tail r : List Char} : before? tail s = some r ↔ s = r ++ tail := by
  rw [before?, Option.map_eq_some_iff]
  constructor
  · rintro ⟨front, hfront, rfl⟩
    rw [after?_eq_some, List.reverse_eq_iff] at hfront
    simpa using hfront
  · rintro rfl
    exact ⟨r.reverse, after?_eq_some.2 (List.reverse_append ..), List.reverse_reverse r⟩

theorem cut_eq_none {sep : Char} : cut sep s = none ↔ sep ∉ s := by
  constructor
  · intro h hmem
    obtain ⟨a, b, rfl, ha⟩ := List.eq_append_cons_of_mem hmem
    rw [cut_eq_some.2 ⟨rfl, ha⟩] at h
    cases h
  · intro h
    rw [Option.eq_none_iff_forall_ne_some]
    rintro ⟨a, b⟩ hcut
    obtain ⟨rfl, -⟩ := cut_eq_some.1 hcut
    simp at h

/-! ### Stops -/

/-- The text from the first character of `stops` on. -/
def onward (stops s : List Char) : List Char := s.dropWhile (! stops.contains ·)

theorem upTo_append_onward (stops s : List Char) : upTo stops s ++ onward stops s = s :=
  List.takeWhile_append_dropWhile

theorem stop_notMem_upTo {stops : List Char} (h : c ∈ stops) : c ∉ upTo stops s := fun hmem => by
  simpa [h] using List.mem_takeWhile_imp hmem

theorem mem_of_head?_onward {stops : List Char} (h : c ∈ (onward stops s).head?) : c ∈ stops := by
  simpa using (dropWhile_eq_iff.1 (rfl : onward stops s = _)).1 c h

/-- A text without stops ends at the first one after it. -/
theorem upTo_append {stops : List Char} (hs : ∀ c ∈ stops, c ∉ s) (ht : ∀ c ∈ t.head?, c ∈ stops) :
    upTo stops (s ++ t) = s ∧ onward stops (s ++ t) = t :=
  takeWhile_run (by simpa using fun c hc hstop => hs c hstop hc) (by simpa using ht)

/-- What follows the last separator: there is none in it, and one before it unless it is all of the text. -/
theorem afterLast_eq_iff {sep : Char} :
    afterLast sep s = t ↔ sep ∉ t ∧ (s = t ∨ ∃ front, s = front ++ sep :: t) := by
  constructor
  · rintro rfl
    have hfree : sep ∉ afterLast sep s := by
      intro h
      rw [afterLast, List.mem_reverse] at h
      simpa using List.mem_takeWhile_imp h
    have hsplit : s = (s.reverse.dropWhile (· ≠ sep)).reverse ++ afterLast sep s := by
      rw [afterLast, ← List.reverse_append, List.takeWhile_append_dropWhile, List.reverse_reverse]
    refine ⟨hfree, ?_⟩
    cases hfront : s.reverse.dropWhile (· ≠ sep) with
    | nil => exact .inl (by rwa [hfront] at hsplit)
    | cons c front =>
      obtain rfl : c = sep := by simpa using (dropWhile_eq_iff.1 hfront).1 c rfl
      exact .inr ⟨front.reverse, by rwa [hfront, List.reverse_cons, List.append_assoc] at hsplit⟩
  · rintro ⟨hsep, hs⟩
    have hrun : ∀ c ∈ t.reverse, decide (c ≠ sep) = true := by
      simpa using fun c hc => ne_of_mem_of_not_mem hc hsep
    rcases hs with rfl | ⟨front, rfl⟩
    · rw [afterLast, List.takeWhile_eq_self_iff.2 hrun, List.reverse_reverse]
    · have hcut := (takeWhile_run (t := sep :: front.reverse) hrun (by simp)).1
      rw [afterLast, List.reverse_append, List.reverse_cons, List.append_assoc, List.singleton_append, hcut,
        List.reverse_reverse]

theorem sep_notMem_afterLast {sep : Char} : sep ∉ afterLast sep s := (afterLast_eq_iff.1 rfl).1

/-- What follows the last separator of two texts. -/
theorem afterLast_append {sep : Char} :
    afterLast sep (s ++ t) = if sep ∈ t then afterLast sep t else afterLast sep s ++ t := by
  split
  · rename_i h
    rcases (afterLast_eq_iff.1 (rfl : afterLast sep t = _)) with ⟨hfree, htail | ⟨front, htail⟩⟩
    · exact absurd (htail ▸ h) hfree
    · exact afterLast_eq_iff.2 ⟨hfree, .inr ⟨s ++ front, by rw [List.append_assoc, ← htail]⟩⟩
  · rename_i h
    rcases (afterLast_eq_iff.1 (rfl : afterLast sep s = _)) with ⟨hfree, hhead | ⟨front, hhead⟩⟩
    · exact afterLast_eq_iff.2 ⟨by simp [hfree, h], .inl (by rw [← hhead])⟩
    · refine afterLast_eq_iff.2 ⟨by simp [hfree, h], .inr ⟨front, ?_⟩⟩
      rw [← List.cons_append, ← List.append_assoc, ← hhead]

/-! ### Fields -/

theorem sep_notMem_of_mem_fields {sep : Char} {t f : List Char} (h : f ∈ fields sep t) : sep ∉ f := by
  induction t generalizing f with
  | nil => simp_all [fields]
  | cons c r ih =>
    simp only [fields] at h
    split at h
    · rcases List.mem_cons.1 h with rfl | h
      · simp
      · exact ih h
    · rename_i hc
      split at h
      · rename_i hf
        exact absurd hf (fields_ne_nil sep r)
      · rename_i g gs hf
        rcases List.mem_cons.1 h with rfl | h
        · rw [List.mem_cons, not_or]
          exact ⟨Ne.symm hc, ih (by simp [hf])⟩
        · exact ih (by simp [hf, h])

theorem fields_append {sep : Char} {a : List Char} (ha : sep ∉ a) (t : List Char) :
    fields sep (a ++ sep :: t) = a :: fields sep t := by
  induction a with
  | nil => simp [fields]
  | cons c a ih =>
    rw [List.mem_cons, not_or] at ha
    simp [fields, Ne.symm ha.1, ih ha.2]

theorem fields_of_notMem {sep : Char} {a : List Char} (ha : sep ∉ a) : fields sep a = [a] := by
  induction a with
  | nil => rfl
  | cons c a ih =>
    rw [List.mem_cons, not_or] at ha
    simp [fields, Ne.symm ha.1, ih ha.2]

/-- A text of two fields is written with one separator. -/
theorem fields_eq_pair {sep : Char} {a b : List Char} :
    fields sep s = [a, b] ↔ s = a ++ sep :: b ∧ sep ∉ a ∧ sep ∉ b := by
  constructor
  · intro h
    have hjoin := join_fields sep s
    rw [h] at hjoin
    refine ⟨by simpa [join] using hjoin.symm, ?_, ?_⟩
    · exact sep_notMem_of_mem_fields (t := s) (by simp [h])
    · exact sep_notMem_of_mem_fields (t := s) (by simp [h])
  · rintro ⟨rfl, ha, hb⟩
    rw [fields_append ha, fields_of_notMem hb]

/-! ### Lines -/

/-- The lines of which a text is made. A line ends with a line feed, with a carriage return and a line feed, or,
if it is the last, with the text; a carriage return before a line feed always belongs to the end of the line. -/
inductive Lined : List (List Char) → List Char → Prop where
  | nothing : Lined [] []
  | last {line : List Char} (hne : line ≠ []) (hfeed : '\n' ∉ line) : Lined [line] line
  | feed {line s : List Char} {ls : List (List Char)} (hfeed : '\n' ∉ line)
      (hreturn : line.getLast? ≠ some '\r') (h : Lined ls s) : Lined (line :: ls) (line ++ '\n' :: s)
  | returnFeed {line s : List Char} {ls : List (List Char)} (hfeed : '\n' ∉ line) (h : Lined ls s) :
      Lined (line :: ls) (line ++ '\r' :: '\n' :: s)

/-- A part of a line is taken up as it stands. -/
theorem go_append (hfeed : '\n' ∉ line) (before s : List Char) :
    lines.go before (line ++ s) = lines.go (line.reverse ++ before) s := by
  induction line generalizing before with
  | nil => rfl
  | cons c line ih =>
    rw [List.mem_cons, not_or] at hfeed
    rw [List.cons_append, lines.go, ih hfeed.2, List.reverse_cons, List.append_assoc, List.singleton_append]
    exact fun hc => hfeed.1 hc.symm

theorem go_feed (before s : List Char) (hreturn : before.head? ≠ some '\r') :
    lines.go before ('\n' :: s) = before.reverse :: lines.go [] s := by
  rw [lines.go]
  rintro l rfl
  exact hreturn rfl

theorem go_returnFeed (before s : List Char) :
    lines.go ('\r' :: before) ('\n' :: s) = before.reverse :: lines.go [] s := by
  rw [lines.go]

theorem Lined.lines_eq (h : Lined ls s) : lines s = ls := by
  unfold lines
  induction h with
  | nothing => rfl
  | @last line hne hfeed =>
    have hgo := go_append hfeed [] []
    rw [List.append_nil, List.append_nil] at hgo
    rw [hgo, lines.go, List.reverse_reverse]
    simpa using hne
  | @feed line s ls hfeed hreturn _ ih =>
    rw [go_append hfeed, List.append_nil, go_feed _ _ (by simpa using hreturn), List.reverse_reverse, ih]
  | @returnFeed line s ls hfeed _ ih =>
    have hfeed' : '\n' ∉ line ++ ['\r'] := by simpa using hfeed
    have hsplit : line ++ '\r' :: '\n' :: s = (line ++ ['\r']) ++ '\n' :: s := by simp
    have hreverse : (line ++ ['\r']).reverse ++ [] = '\r' :: line.reverse := by simp
    rw [hsplit, go_append hfeed', hreverse, go_returnFeed, List.reverse_reverse, ih]

theorem lined_go (before s : List Char) (hfeed : '\n' ∉ before) : Lined (lines.go before s) (before.reverse ++ s) := by
  fun_induction lines.go before s with
  | case1 => exact .nothing
  | case2 before hne =>
    rw [List.append_nil]
    exact .last (by simpa using hne) (by simpa using hfeed)
  | case3 before r ih =>
    have hnext := ih (by simp)
    rw [List.reverse_nil, List.nil_append] at hnext
    split
    · rename_i line
      rw [List.mem_cons, not_or] at hfeed
      rw [List.reverse_cons, List.append_assoc, List.singleton_append]
      exact .returnFeed (by simpa using hfeed.2) hnext
    · rename_i line hreturn
      refine .feed (by simpa using hfeed) ?_ hnext
      rw [List.getLast?_reverse]
      intro hhead
      obtain ⟨l, rfl⟩ := List.head?_eq_some_iff.1 hhead
      exact hreturn l rfl
  | case4 before c r hc ih =>
    have hnext := ih (by simpa [eq_comm, hfeed] using hc)
    rwa [List.reverse_cons, List.append_assoc, List.singleton_append] at hnext

/-- **A text is read as the lines of which it is made.** -/
theorem lines_eq_iff : lines s = ls ↔ Lined ls s := by
  constructor
  · rintro rfl
    exact lined_go [] s (by simp)
  · exact Lined.lines_eq

instance (ls : List (List Char)) (s : List Char) : Decidable (Lined ls s) := decidable_of_iff _ lines_eq_iff

/-! ### Words -/

variable {sep : Char → Bool} {w run : List Char}

/-- A longest run of characters that are no separators: what is before it ends with one, and what is after it
begins with one. -/
def IsWord (sep : Char → Bool) (s w : List Char) : Prop :=
  w ≠ [] ∧ (∀ c ∈ w, sep c = false) ∧ ∃ before after, s = before ++ w ++ after ∧
    (∀ c ∈ before.getLast?, sep c = true) ∧ ∀ c ∈ after.head?, sep c = true

theorem go_append_sep (hc : sep c = true) (cur s t : List Char) :
    wordsBy.go sep cur (s ++ c :: t) = wordsBy.go sep cur s ++ wordsBy.go sep [] t := by
  fun_induction wordsBy.go sep cur s with
  | case1 => simp [wordsBy.go, hc]
  | case2 cur hne =>
    have hcur : cur ≠ [] := hne
    simp [wordsBy.go, hc, hcur]
  | case3 d s hd ih => simp [wordsBy.go, hd, ih]
  | case4 cur d s hd hne ih => simp [wordsBy.go, hd, hne, ih]
  | case5 cur d s hd ih => simp [wordsBy.go, hd, ih]

/-- A separator cuts the words apart. -/
theorem wordsBy_append (hc : sep c = true) (s t : List Char) :
    wordsBy sep (s ++ c :: t) = wordsBy sep s ++ wordsBy sep t := go_append_sep hc [] s t

/-- Separators at the beginning add no words. -/
theorem wordsBy_separators_append (h : ∀ c ∈ s, sep c = true) (t : List Char) :
    wordsBy sep (s ++ t) = wordsBy sep t := by
  induction s with
  | nil => rfl
  | cons c s ih =>
    obtain ⟨hc, hs⟩ := List.forall_mem_cons.1 h
    have hcut := wordsBy_append hc [] (s ++ t)
    rwa [List.nil_append, ih hs] at hcut

/-- Separators at the end add no words. -/
theorem wordsBy_append_separators (h : ∀ c ∈ t, sep c = true) (s : List Char) :
    wordsBy sep (s ++ t) = wordsBy sep s := by
  cases t with
  | nil => rw [List.append_nil]
  | cons c t =>
    obtain ⟨hc, ht⟩ := List.forall_mem_cons.1 h
    have hrest := wordsBy_separators_append ht []
    rw [List.append_nil] at hrest
    rw [wordsBy_append hc, hrest]
    exact List.append_nil _

/-- Separators, however many, cut the words apart. -/
theorem wordsBy_append_separators_append (hne : run ≠ []) (h : ∀ c ∈ run, sep c = true) (s t : List Char) :
    wordsBy sep (s ++ run ++ t) = wordsBy sep s ++ wordsBy sep t := by
  cases run with
  | nil => exact absurd rfl hne
  | cons c run =>
    obtain ⟨hc, hrun⟩ := List.forall_mem_cons.1 h
    rw [List.append_assoc, List.cons_append, wordsBy_append hc, wordsBy_separators_append hrun]

/-- The words of a text are those of its lines, where the ends of lines are separators. -/
theorem Lined.wordsBy_eq (h : Lined ls s) (hfeed : sep '\n' = true) (hreturn : sep '\r' = true) :
    wordsBy sep s = ls.flatMap (wordsBy sep) := by
  induction h with
  | nothing => rfl
  | last => simp
  | feed _ _ _ ih => rw [wordsBy_append hfeed, ih, List.flatMap_cons]
  | returnFeed _ _ ih =>
    have hends : ∀ c ∈ ['\n'], sep c = true := by simpa using hfeed
    rw [wordsBy_append hreturn, ← List.singleton_append, wordsBy_separators_append hends, ih, List.flatMap_cons]

theorem go_of_word (h : ∀ c ∈ w, sep c = false) (cur : List Char) (hne : cur ≠ [] ∨ w ≠ []) :
    wordsBy.go sep cur w = [cur.reverse ++ w] := by
  induction w generalizing cur with
  | nil =>
    have hcur : cur ≠ [] := hne.resolve_right (by simp)
    rw [wordsBy.go, List.append_nil]
    exact hcur
  | cons c w ih =>
    obtain ⟨hc, hw⟩ := List.forall_mem_cons.1 h
    simp [wordsBy.go, hc, ih hw (c :: cur) (by simp)]

/-- A text without separators is one word. -/
theorem wordsBy_of_word (hne : w ≠ []) (h : ∀ c ∈ w, sep c = false) : wordsBy sep w = [w] :=
  go_of_word h [] (.inr hne)

/-- What stands before a separator does not matter to the words after it. -/
theorem IsWord.after_sep (hc : sep c = true) (h : IsWord sep t w) (s : List Char) :
    IsWord sep (s ++ c :: t) w := by
  obtain ⟨hne, hw, before, after, rfl, hbefore, hafter⟩ := h
  refine ⟨hne, hw, s ++ c :: before, after, by simp, ?_, hafter⟩
  cases before with
  | nil => simpa using hc
  | cons d before => simpa using hbefore

theorem isWord_of_mem_go {cur : List Char} (hcur : ∀ c ∈ cur, sep c = false) (h : w ∈ wordsBy.go sep cur s) :
    IsWord sep (cur.reverse ++ s) w := by
  fun_induction wordsBy.go sep cur s with
  | case1 => cases h
  | case2 cur hne =>
    obtain rfl := List.mem_singleton.1 h
    exact ⟨by simpa using hne, by simpa using hcur, [], [], by simp, by simp, by simp⟩
  | case3 d s hd ih => exact (ih (by simp) h).after_sep hd []
  | case4 cur d s hd hne ih =>
    rcases List.mem_cons.1 h with rfl | h
    · exact ⟨by simpa using hne, by simpa using hcur, [], d :: s, rfl, by simp, by simpa using hd⟩
    · exact (ih (by simp) h).after_sep hd cur.reverse
  | case5 cur d s hd ih =>
    have hcons : ∀ c ∈ d :: cur, sep c = false := by simpa [hd] using hcur
    have hword := ih hcons h
    rwa [List.reverse_cons, List.append_assoc, List.singleton_append] at hword

/-- **The words of a text** are its longest runs without separators. -/
theorem mem_wordsBy : w ∈ wordsBy sep s ↔ IsWord sep s w := by
  constructor
  · exact isWord_of_mem_go (by simp)
  · rintro ⟨hne, hw, before, after, rfl, hbefore, hafter⟩
    have hfront : w ∈ wordsBy sep (w ++ after) := by
      cases after with
      | nil =>
        rw [List.append_nil, wordsBy_of_word hne hw]
        exact List.mem_singleton_self w
      | cons c after =>
        rw [wordsBy_append (hafter c rfl), wordsBy_of_word hne hw]
        exact List.mem_cons_self
    rcases before.eq_nil_or_concat with rfl | ⟨before, c, rfl⟩
    · exact hfront
    · have hc : sep c = true := hbefore c (by simp)
      rw [List.concat_eq_append, List.append_assoc, List.append_assoc, List.singleton_append,
        wordsBy_append hc]
      exact List.mem_append_right _ hfront

end Upkeep.Text
