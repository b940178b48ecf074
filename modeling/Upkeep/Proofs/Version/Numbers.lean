import Upkeep.Version
import Upkeep.Proofs.Text.Cuts

/-!
# The numbers at the front of a version

All forms of a version are read off the numbers that it begins with. What the scanner of these numbers finds is said
here without the scanner.

* `IsRun`: a nonempty run of characters of one class.
* `run?_eq_some_iff`: a run is read up to the first character of another class.
* `numbers?_eq_some_iff`: **the numbers at the front of a text**, with dots between them.
* `numbers?_append`: what follows a text does not matter to its numbers, unless a digit or a dot comes next.
* `IsFront`, `IsFront.numbers?_eq`: **a version and its front begin with the same numbers**.
-/

namespace Upkeep.Version

open Text

variable {p : Char → Bool} {c : Char} {s t d r : List Char} {ds : List (List Char)} {n : Nat}

/-- A nonempty run of characters of one class. -/
def IsRun (p : Char → Bool) (d : List Char) : Prop := d ≠ [] ∧ ∀ c ∈ d, p c = true

/-- A run at the front of a text is read up to the first character of another class. -/
theorem run?_eq_some_iff : run? p s = some (d, r) ↔ s = d ++ r ∧ IsRun p d ∧ ∀ c ∈ r.head?, p c = false := by
  unfold run? IsRun
  constructor
  · intro h
    split_ifs at h with hempty
    obtain ⟨rfl, rfl⟩ := Prod.mk.inj (Option.some.inj h)
    obtain ⟨hstop, -⟩ := dropWhile_eq_iff.1 (rfl : s.dropWhile p = _)
    exact ⟨List.takeWhile_append_dropWhile.symm, ⟨hempty, fun c => List.mem_takeWhile_imp⟩, hstop⟩
  · rintro ⟨rfl, ⟨hne, hrun⟩, hstop⟩
    obtain ⟨htake, hdrop⟩ := takeWhile_run hrun hstop
    rw [htake, hdrop, if_neg hne]

theorem IsRun.notMem (h : IsRun p d) (hc : p c = false) : c ∉ d := fun hmem => by
  rw [h.2 c hmem] at hc
  cases hc

theorem not_isDecimalDigit_dot : isDecimalDigit '.' = false := by decide

theorem not_isDecimalDigit_hyphen : isDecimalDigit '-' = false := by decide

/-- Numbers that are written with dots between them are read, up to what follows them. -/
theorem numbers?_join_append (hlength : ds.length = n + 1) (hds : ∀ d ∈ ds, IsRun isDecimalDigit d)
    (hstop : ∀ c ∈ r.head?, isDecimalDigit c = false) : numbers? n (join ['.'] ds ++ r) = some (ds, r) := by
  induction n generalizing ds with
  | zero =>
    obtain ⟨d, rfl⟩ := List.length_eq_one_iff.1 hlength
    have hrun : run? isDecimalDigit (join ['.'] [d] ++ r) = some (d, r) :=
      run?_eq_some_iff.2 ⟨rfl, hds d (by simp), hstop⟩
    rw [numbers?, hrun, Option.map_some]
  | succ n ih =>
    obtain ⟨d, ds, rfl⟩ := List.exists_cons_of_length_eq_add_one hlength
    obtain ⟨hd, hds⟩ := List.forall_mem_cons.1 hds
    have hlater : ds.length = n + 1 := by simpa using hlength
    obtain ⟨e, es, rfl⟩ := List.exists_cons_of_length_eq_add_one hlater
    have hrun : run? isDecimalDigit (join ['.'] (d :: e :: es) ++ r) =
        some (d, '.' :: (join ['.'] (e :: es) ++ r)) :=
      run?_eq_some_iff.2 ⟨by simp [join], hd, by simpa using not_isDecimalDigit_dot⟩
    rw [numbers?, hrun]
    simp only [ih hlater hds, Option.map_some]

/-- Numbers that are read stand at the front of the text. -/
theorem of_numbers?_eq_some (h : numbers? n s = some (ds, r)) : s = join ['.'] ds ++ r ∧ ds.length = n + 1 ∧
    (∀ d ∈ ds, IsRun isDecimalDigit d) ∧ ∀ c ∈ r.head?, isDecimalDigit c = false := by
  induction n generalizing s ds with
  | zero =>
    obtain ⟨⟨d, r⟩, hrun, hpair⟩ := Option.map_eq_some_iff.1 h
    cases hpair
    obtain ⟨rfl, hd, hstop⟩ := run?_eq_some_iff.1 hrun
    exact ⟨rfl, rfl, by simpa using hd, hstop⟩
  | succ n ih =>
    rw [numbers?] at h
    split at h
    · rename_i d later hrun
      obtain ⟨⟨ds, r⟩, hnext, hpair⟩ := Option.map_eq_some_iff.1 h
      cases hpair
      obtain ⟨rfl, hd, -⟩ := run?_eq_some_iff.1 hrun
      obtain ⟨rfl, hlength, hds, hstop⟩ := ih hnext
      obtain ⟨e, es, rfl⟩ := List.exists_cons_of_length_eq_add_one hlength
      exact ⟨by simp [join], by simpa using hlength, List.forall_mem_cons.2 ⟨hd, hds⟩, hstop⟩
    · cases h

/-- **The numbers at the front of a text** are runs of digits with dots between them, and no digit follows them. -/
theorem numbers?_eq_some_iff : numbers? n s = some (ds, r) ↔ s = join ['.'] ds ++ r ∧ ds.length = n + 1 ∧
    (∀ d ∈ ds, IsRun isDecimalDigit d) ∧ ∀ c ∈ r.head?, isDecimalDigit c = false := by
  refine ⟨of_numbers?_eq_some, ?_⟩
  rintro ⟨rfl, hlength, hds, hstop⟩
  exact numbers?_join_append hlength hds hstop

theorem mem_join_numbers (hds : ∀ d ∈ ds, IsRun isDecimalDigit d) (hc : c ∈ join ['.'] ds) :
    c = '.' ∨ isDecimalDigit c = true := by
  induction ds using join.induct with
  | case1 => cases hc
  | case2 d => exact .inr ((hds d (by simp)).2 c hc)
  | case3 d e ds ih =>
    rw [join, List.mem_append, List.mem_append, List.mem_singleton] at hc
    rcases hc with (hc | hc) | hc
    · exact .inr ((hds d (by simp)).2 c hc)
    · exact .inl hc
    · exact ih (List.forall_mem_cons.1 hds).2 hc

/-- What follows a text does not matter to its numbers, unless a digit or a dot comes next. -/
theorem numbers?_append (ht : ∀ c ∈ t.head?, c ≠ '.' ∧ isDecimalDigit c = false) :
    numbers? n (s ++ t) = (numbers? n s).map fun (ds, r) => (ds, r ++ t) := by
  ext ⟨ds, rest⟩
  rw [Option.map_eq_some_iff]
  constructor
  · intro h
    obtain ⟨hsplit, hlength, hds, hstop⟩ := numbers?_eq_some_iff.1 h
    rcases List.append_eq_append_iff.1 hsplit with ⟨last, hnumbers, htail⟩ | ⟨r, rfl, rfl⟩
    · -- the numbers cannot reach into `t`
      cases last with
      | nil =>
        have hall : numbers? n s = some (ds, []) :=
          numbers?_eq_some_iff.2 ⟨by simpa using hnumbers.symm, hlength, hds, by simp⟩
        exact ⟨(ds, []), hall, by simp [htail]⟩
      | cons c last =>
        obtain ⟨hdot, hdigit⟩ := ht c (by simp [htail])
        rcases mem_join_numbers hds (c := c) (by simp [hnumbers]) with hc | hc
        · exact absurd hc hdot
        · rw [hdigit] at hc
          cases hc
    · refine ⟨(ds, r), numbers?_eq_some_iff.2 ⟨rfl, hlength, hds, fun c hc => hstop c ?_⟩, rfl⟩
      rw [List.head?_append, Option.mem_def.1 hc]
      rfl
  · rintro ⟨⟨ds, r⟩, h, hpair⟩
    obtain ⟨rfl, rfl⟩ := Prod.mk.inj hpair
    obtain ⟨rfl, hlength, hds, hstop⟩ := numbers?_eq_some_iff.1 h
    refine numbers?_eq_some_iff.2 ⟨List.append_assoc _ _ _, hlength, hds, fun c hc => ?_⟩
    rw [List.head?_append, Option.mem_def, Option.or_eq_some_iff] at hc
    rcases hc with hc | ⟨-, hc⟩
    · exact hstop c hc
    · exact (ht c hc).2

/-! ### Fronts -/

/-- The front of a version, with at least everything before its first hyphen. -/
def IsFront (w v : List Char) : Prop := upTo ['-'] v <+: w ∧ w <+: v

variable {v w : List Char}

/-- A text between a version with a hyphen and what stands before this hyphen is a front of the version. -/
theorem isFront_of_hyphen {release rest : List Char} (h : '-' ∉ release) (hfront : release <+: w)
    (hw : w <+: release ++ '-' :: rest) : IsFront w (release ++ '-' :: rest) := by
  have hupTo : upTo ['-'] (release ++ '-' :: rest) = release := (upTo_append (by simpa using h) (by simp)).1
  exact ⟨by rwa [hupTo], hw⟩

/-- A version and its front are the same up to a hyphen, or up to the end of either. -/
theorem IsFront.split (h : IsFront w v) : ∃ release rest rest', v = release ++ rest ∧ w = release ++ rest' ∧
    (∀ c ∈ rest.head?, c = '-') ∧ ∀ c ∈ rest'.head?, c = '-' := by
  obtain ⟨⟨rest', rfl⟩, hprefix⟩ := h
  have hsplit := upTo_append_onward ['-'] v
  have hhead (c : Char) (hc : c ∈ (onward ['-'] v).head?) : c = '-' := by simpa using mem_of_head?_onward hc
  obtain ⟨more, hmore⟩ : rest' <+: onward ['-'] v := by
    rwa [← List.prefix_append_right_inj (upTo ['-'] v), hsplit]
  refine ⟨_, _, rest', hsplit.symm, rfl, hhead, fun c hc => hhead c ?_⟩
  rw [← hmore, List.head?_append, Option.mem_def.1 hc]
  exact rfl

/-- **A version and its front begin with the same numbers.** -/
theorem IsFront.numbers?_eq (h : IsFront w v) : (numbers? n w).map Prod.fst = (numbers? n v).map Prod.fst := by
  obtain ⟨release, rest, rest', rfl, rfl, hrest, hrest'⟩ := h.split
  have hhyphen (c : Char) (hc : c = '-') : c ≠ '.' ∧ isDecimalDigit c = false := by
    subst hc
    decide
  rw [numbers?_append fun c hc => hhyphen c (hrest c hc), numbers?_append fun c hc => hhyphen c (hrest' c hc)]
  simp only [Option.map_map, Function.comp_def]

end Upkeep.Version
