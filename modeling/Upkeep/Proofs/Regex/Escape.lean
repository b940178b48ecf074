import Mathlib.Data.List.Infix
import Upkeep.Proofs.Text.Cuts
import Upkeep.Regex.Parser

/-!
# Texts that stand for themselves

A text that is escaped is read as an expression of its characters one after the other, and between the anchors of a
text that expression matches the text alone.

* `backslash_of_pair_infix`: an operator in an escaped text follows a backslash.
* `group?_escape`: **an escaped text is read character by character.**
* `mem_ends_seqs_append`, `mem_ends_literals`: where a match of such an expression ends.
* `isMatch_anchored_iff`: between the anchors all of a text is matched, or nothing.
* `exists_parse_anchored_escape`: **an escaped text between anchors matches itself alone.**
-/

namespace Upkeep.Regex

open Text

variable {s rest : List Char} {c d : Char} {f : Flags} {g : Reading} {names : List (List Char)} {fuel : Nat}
  {a r : Regex} {l l' : List Regex} {p q : Position}

/-! ### Escaped texts -/

theorem escape_cons (c : Char) (s : List Char) : escape (c :: s) = escapeChar c ++ escape s := rfl

theorem escape_append (s t : List Char) : escape (s ++ t) = escape s ++ escape t := List.flatMap_append

theorem length_le_length_escape (s : List Char) : s.length ≤ (escape s).length := by
  induction s with
  | nil => simp
  | cons c s ih =>
    have hc : 1 ≤ (escapeChar c).length := by
      rw [escapeChar]
      split <;> simp
    rw [escape_cons, List.length_append, List.length_cons]
    omega

/-- An escaped text begins with no operator but a backslash. -/
theorem eq_backslash_of_head?_escape (h : d ∈ (escape s).head?) (hd : d ∈ operators) : d = '\\' := by
  cases s with
  | nil => cases h
  | cons c s =>
    rw [escape_cons, escapeChar] at h
    split at h
    · exact (Option.some.inj h).symm
    · obtain rfl : c = d := Option.some.inj h
      contradiction

/-- **An operator in an escaped text follows a backslash**, unless it is one. -/
theorem backslash_of_pair_infix (h : [c, d] <:+: escape s) (hd : d ∈ operators) : c = '\\' ∨ d = '\\' := by
  induction s with
  | nil => simp [escape] at h
  | cons x s ih =>
    have hrest (h : [c, d] <:+: x :: escape s) : c = '\\' ∨ d = '\\' := by
      rcases List.infix_cons_iff.1 h with hhere | hlater
      · obtain ⟨-, hhead⟩ := List.cons_prefix_cons.1 hhere
        obtain ⟨r, hr⟩ := hhead
        exact .inr (eq_backslash_of_head?_escape (by rw [← hr]; rfl) hd)
      · exact ih hlater
    rw [escape_cons, escapeChar] at h
    split at h
    · rcases List.infix_cons_iff.1 h with hhere | hlater
      · exact .inl (List.cons_prefix_cons.1 hhere).1
      · exact hrest hlater
    · exact hrest h

/-! ### Reading them -/

/-- The expressions of the characters of a text. -/
def literals (f : Flags) (s : List Char) : List Regex := s.map (literal f)

theorem literals_cons (f : Flags) (c : Char) (s : List Char) :
    literals f (c :: s) = literal f c :: literals f s := rfl

/-- What has been read, with more items. -/
def Reading.addAll (g : Reading) (l : List Regex) : Reading := { g with items := (l.map some).reverse ++ g.items }

/-- Only an operator repeats what stands before it. -/
theorem repetition?_of_notMem (hc : c ∉ operators) : repetition? f (c :: rest) = some none := by
  unfold repetition?
  split
  all_goals first
    | rfl
    | simp_all [operators]

theorem skip_eq_self (hspaced : f.spaced = false) (s : List Char) : f.skip s = s := by
  simp [Flags.skip, hspaced]

theorem group?_nil (hspaced : g.flags.spaced = false) :
    group? (fuel + 1) names g [] = some (g.whole, names, []) := by
  -- once it is known that blanks count, what is read is found by evaluation
  obtain ⟨⟨_, _, _, _, spaced, _⟩, _, _⟩ := g
  obtain rfl : spaced = false := hspaced
  rfl

theorem group?_circumflex (hspaced : g.flags.spaced = false) :
    group? (fuel + 1) names g ('^' :: rest) = group? fuel names (g.add (.anchor g.flags.lineStart)) rest := by
  obtain ⟨⟨_, _, _, _, spaced, _⟩, _, _⟩ := g
  obtain rfl : spaced = false := hspaced
  rfl

theorem group?_dollar (hspaced : g.flags.spaced = false) :
    group? (fuel + 1) names g ('$' :: rest) = group? fuel names (g.add (.anchor g.flags.lineEnd)) rest := by
  obtain ⟨⟨_, _, _, _, spaced, _⟩, _, _⟩ := g
  obtain rfl : spaced = false := hspaced
  rfl

theorem group?_escapeChar (hspaced : g.flags.spaced = false) :
    group? (fuel + 1) names g (escapeChar c ++ rest) = group? fuel names (g.add (literal g.flags c)) rest := by
  rw [escapeChar]
  split
  · rename_i hc
    rw [List.cons_append, List.singleton_append, group?, skip_eq_self hspaced]
    simp [escaped?, hc, atom]
  · rename_i hc
    have hnone : repetition? g.flags (c :: rest) = some none := repetition?_of_notMem hc
    rw [List.singleton_append, group?, skip_eq_self hspaced]
    simp only [operators, List.mem_cons, List.not_mem_nil, or_false, not_or] at hc
    simp [hc, hnone]

/-- **An escaped text is read character by character.** -/
theorem group?_escape (hspaced : g.flags.spaced = false) :
    group? (s.length + fuel) names g (escape s ++ rest) =
      group? fuel names (g.addAll (literals g.flags s)) rest := by
  induction s generalizing g with
  | nil => simp [escape, literals, Reading.addAll]
  | cons c s ih =>
    rw [escape_cons, List.append_assoc, List.length_cons, Nat.add_right_comm, group?_escapeChar hspaced, ih]
    · simp [literals, Reading.addAll, Reading.add]
    · exact hspaced

/-! ### Matching them -/

theorem mem_ends_seqs_cons : q ∈ (seqs (a :: l)).ends p ↔ ∃ m ∈ a.ends p, q ∈ (seqs l).ends m := by
  cases l with
  | nil => simp [seqs, ends]
  | cons b l => simp [seqs, ends]

/-- A match of several expressions in a row goes on where that of the first ones ends. -/
theorem mem_ends_seqs_append : q ∈ (seqs (l ++ l')).ends p ↔ ∃ m ∈ (seqs l).ends p, q ∈ (seqs l').ends m := by
  induction l generalizing p with
  | nil => simp [seqs, ends]
  | cons a l ih =>
    simp only [List.cons_append, mem_ends_seqs_cons, ih]
    constructor
    · rintro ⟨m, hm, n, hn, hq⟩
      exact ⟨n, ⟨m, hm, hn⟩, hq⟩
    · rintro ⟨n, ⟨m, hm, hn⟩, hq⟩
      exact ⟨m, hm, n, hn, hq⟩

theorem mem_ends_literal : q ∈ (literal {} c).ends p ↔ p.ahead = c :: q.ahead ∧ q.behind = c :: p.behind := by
  obtain ⟨behind, ahead⟩ := p
  obtain ⟨behind', ahead'⟩ := q
  have hliteral : literal {} c = .char (.one c) := rfl
  rw [hliteral]
  cases ahead with
  | nil => simp [ends]
  | cons d r =>
    simp only [ends, CharSet.mem_one, beq_iff_eq]
    by_cases hc : c = d
    · subst hc
      simp [and_comm, eq_comm]
    · simp [hc, Ne.symm hc]

theorem mem_ends_anchor {anchor : Anchor} : q ∈ (Regex.anchor anchor).ends p ↔ q = p ∧ anchor.holds p = true := by
  rw [ends]
  split <;> simp [*]

/-- **A match of the characters of a text** ends after the text. -/
theorem mem_ends_literals :
    q ∈ (seqs (literals {} s)).ends p ↔ p.ahead = s ++ q.ahead ∧ q.behind = s.reverse ++ p.behind := by
  induction s generalizing p with
  | nil =>
    obtain ⟨behind, ahead⟩ := p
    obtain ⟨behind', ahead'⟩ := q
    simp [literals, seqs, ends, and_comm, eq_comm]
  | cons c s ih =>
    rw [literals_cons, mem_ends_seqs_cons]
    simp only [mem_ends_literal, ih]
    constructor
    · rintro ⟨m, ⟨hahead, hbehind⟩, hahead', hbehind'⟩
      simp [hahead, hahead', hbehind', hbehind]
    · rintro ⟨hahead, hbehind⟩
      exact ⟨⟨c :: p.behind, s ++ q.ahead⟩, ⟨by simp [hahead], rfl⟩, rfl, by simp [hbehind]⟩

/-- The positions of a text are where it can be cut. -/
theorem mem_positions {behind ahead : List Char} :
    p ∈ positions behind ahead ↔ ∃ t, ahead = t ++ p.ahead ∧ p.behind = t.reverse ++ behind := by
  induction ahead generalizing behind with
  | nil =>
    obtain ⟨behind', ahead'⟩ := p
    simp [positions, and_comm, eq_comm]
  | cons c r ih =>
    rw [positions, List.mem_cons, ih]
    constructor
    · rintro (rfl | ⟨t, hahead, hbehind⟩)
      · exact ⟨[], rfl, rfl⟩
      · exact ⟨c :: t, by simp [hahead], by simp [hbehind]⟩
    · rintro ⟨t, hahead, hbehind⟩
      cases t with
      | nil =>
        obtain ⟨behind', ahead'⟩ := p
        simp_all
      | cons d t =>
        obtain ⟨rfl, rfl⟩ := List.cons.inj hahead
        exact .inr ⟨t, rfl, by simp [hbehind]⟩

theorem isMatch_iff {text : String} :
    r.isMatch text = true ↔ ∃ p ∈ positions [] text.toList, ∃ q, q ∈ r.ends p := by
  simp only [isMatch, List.any_eq_true, Bool.not_eq_true', List.isEmpty_eq_false_iff, ne_eq,
    List.eq_nil_iff_forall_not_mem, not_forall, not_not]

/-- **Between the anchors of a text** all of it is matched, or nothing. -/
theorem isMatch_anchored_iff {text : String} :
    (seqs (.anchor .textStart :: (l ++ [.anchor .textEnd]))).isMatch text = true ↔
      ∃ q ∈ (seqs l).ends ⟨[], text.toList⟩, q.ahead = [] := by
  have hends (p q : Position) : q ∈ (seqs (.anchor .textStart :: (l ++ [.anchor .textEnd]))).ends p ↔
      p.behind = [] ∧ q ∈ (seqs l).ends p ∧ q.ahead = [] := by
    simp only [mem_ends_seqs_cons, mem_ends_seqs_append, seqs, mem_ends_anchor, Anchor.holds, List.isEmpty_iff]
    constructor
    · rintro ⟨_, ⟨rfl, hstart⟩, _, hq, rfl, hend⟩
      exact ⟨hstart, hq, hend⟩
    · rintro ⟨hstart, hq, hend⟩
      exact ⟨p, ⟨rfl, hstart⟩, q, hq, rfl, hend⟩
  simp only [isMatch_iff, hends, mem_positions]
  constructor
  · rintro ⟨⟨behind, ahead⟩, ⟨t, htext, hbehind⟩, q, rfl, hq⟩
    obtain rfl : t = [] := by simpa using hbehind
    exact ⟨q, htext ▸ hq⟩
  · rintro ⟨q, hq⟩
    exact ⟨⟨[], text.toList⟩, ⟨[], rfl, rfl⟩, q, rfl, hq⟩

/-- **An escaped text between the anchors** is an expression, and matches itself alone. -/
theorem exists_parse_anchored_escape (s : List Char) :
    ∃ r, parse (String.ofList ('^' :: (escape s ++ ['$']))) = some r ∧
      ∀ text : String, r.isMatch text = true ↔ text.toList = s := by
  refine ⟨seqs (.anchor .textStart :: (literals {} s ++ [.anchor .textEnd])), ?_, fun text => ?_⟩
  · obtain ⟨k, hk⟩ := Nat.exists_eq_add_of_le (length_le_length_escape s)
    have hfuel : ('^' :: (escape s ++ ['$'])).length + 1 = s.length + (k + 2) + 1 := by
      simp [hk]
      omega
    rw [parse, String.toList_ofList, parseChars, hfuel]
    have hgroup : group? (s.length + (k + 2) + 1) [] { flags := {} } ('^' :: (escape s ++ ['$'])) =
        some (((({ flags := {} } : Reading).add (.anchor .textStart)).addAll (literals {} s) |>.add
          (.anchor .textEnd)).whole, [], []) := by
      rw [group?_circumflex rfl, group?_escape rfl, group?_dollar rfl, group?_nil rfl]
      rfl
    rw [hgroup]
    simp [Reading.addAll, Reading.add, Reading.whole, Reading.branch, alts, List.filterMap_append]
  · rw [isMatch_anchored_iff]
    simp only [mem_ends_literals]
    constructor
    · rintro ⟨q, ⟨hahead, -⟩, hend⟩
      rw [hahead, hend, List.append_nil]
    · intro htext
      exact ⟨⟨s.reverse, []⟩, by simp [htext], rfl⟩

end Upkeep.Regex
