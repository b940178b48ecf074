import Mathlib.Data.Prod.Lex
import Upkeep.Proofs.Version.Numbers

/-!
# The numeric triple of a version

Versions are compared by the three numbers that they begin with, behind a lead if they have one. What these are is
said here without the scanner that reads them.

* `Triple.lt_iff`: triples are compared in lexicographic order.
* `dropLead_append`, `dropLead_of_noLead`: which leads are passed over.
* `Numbered`, `numeric?_eq_some_iff`: **the numeric triple of a version**.
-/

namespace Upkeep

/-! ### The order of the triples -/

namespace Triple

/-- The three numbers of a triple, in lexicographic order. -/
def lex (t : Triple) : ℕ ×ₗ ℕ ×ₗ ℕ := toLex (t.major, toLex (t.minor, t.patch))

theorem lex_injective : Function.Injective lex := by
  rintro ⟨a, b, c⟩ ⟨a', b', c'⟩ h
  cases h
  rfl

/-- Triples are compared number by number. -/
instance : LinearOrder Triple := LinearOrder.lift' lex lex_injective

theorem lt_iff {t u : Triple} : t.lt u = true ↔ t < u := by
  have hlex : t < u ↔ t.lex < u.lex := Iff.rfl
  rw [hlex, lex, lex, Prod.Lex.toLex_lt_toLex, Prod.Lex.toLex_lt_toLex]
  simp [lt]

end Triple

namespace Version

open Text

variable {s lead : List Char} {c : Char} {n : Nat}

/-! ### Leads -/

theorem exists_lead (s : List Char) : ∃ lead ∈ [] :: leads, s = lead ++ dropLead s := by
  rw [dropLead]
  cases hfound : leads.findSome? (after? · s) with
  | none => exact ⟨[], List.mem_cons_self, rfl⟩
  | some r =>
    obtain ⟨lead, hlead, hafter⟩ := List.exists_of_findSome?_eq_some hfound
    exact ⟨lead, List.mem_cons_of_mem _ hlead, after?_eq_some.1 hafter⟩

/-- The lead before a digit is passed over, and nothing else. -/
theorem dropLead_append (hlead : lead ∈ [] :: leads) (hc : isDecimalDigit c = true) (s : List Char) :
    dropLead (lead ++ c :: s) = c :: s := by
  have hletter (d : Char) (hd : isDecimalDigit d = false) : d ≠ c := by
    rintro rfl
    rw [hd] at hc
    cases hc
  have hv := hletter 'v' (by decide)
  have he := hletter 'e' (by decide)
  have hr := hletter 'r' (by decide)
  have hleads : leads = ["version-".toList, "release-".toList, ['v']] := rfl
  rw [hleads] at hlead
  simp only [List.mem_cons, List.not_mem_nil, or_false] at hlead
  rcases hlead with rfl | rfl | rfl | rfl
  · simp [dropLead, hleads, after?, hv, hr]
  · rfl
  · rfl
  · simp [dropLead, hleads, after?, he]

/-- Without the longer leads only a `v` is passed over. -/
theorem dropLead_of_noLead (hversion : ¬ "version-".toList <+: s) (hrelease : ¬ "release-".toList <+: s) :
    dropLead s = (after? ['v'] s).getD s := by
  have hleads : leads = ["version-".toList, "release-".toList, ['v']] := rfl
  simp only [dropLead, hleads, List.findSome?_cons, after?_eq_none.2 hversion, after?_eq_none.2 hrelease,
    List.findSome?_nil]
  cases after? ['v'] s <;> rfl

/-! ### The triple of a version -/

/-- The triple of a version: behind a lead or at the very front there are three numbers with dots between them, each
in ASCII digits and below 2^64, and no digit of any script follows them. -/
def Numbered (v : String) (t : Triple) : Prop :=
  ∃ lead ∈ [] :: leads, ∃ a b c rest, v.toList = lead ++ (a ++ '.' :: b ++ '.' :: c ++ rest) ∧
    natural? a = some t.major ∧ natural? b = some t.minor ∧ natural? c = some t.patch ∧
    t.major < 0x10000000000000000 ∧ t.minor < 0x10000000000000000 ∧ t.patch < 0x10000000000000000 ∧
    ∀ d ∈ rest.head?, isDecimalDigit d = false

theorem part?_eq_some : part? s = some n ↔ natural? s = some n ∧ n < 0x10000000000000000 := by
  rw [part?, Option.filter_eq_some_iff, decide_eq_true_iff]

/-- A number is written in digits. -/
theorem isRun_of_natural? (h : natural? s = some n) : IsRun Char.isDigit s := by
  unfold natural? at h
  split_ifs at h with hdigits
  exact ⟨hdigits.1, List.all_eq_true.1 hdigits.2⟩

theorem isRun_isDecimalDigit (h : IsRun Char.isDigit s) : IsRun isDecimalDigit s :=
  ⟨h.1, fun c hc => isDecimalDigit_of_isDigit (h.2 c hc)⟩

/-- The numeric triple is read off three numbers behind the lead. -/
theorem numericChars_eq_some {triple : Triple} : numericChars s = some triple ↔
    ∃ a b c, (numbers? 2 (dropLead s)).map Prod.fst = some [a, b, c] ∧
      part? a = some triple.major ∧ part? b = some triple.minor ∧ part? c = some triple.patch := by
  unfold numericChars
  constructor
  · intro h
    split at h
    · rename_i a b c r hnumbers
      obtain ⟨major, ha, h⟩ := Option.bind_eq_some_iff.1 h
      obtain ⟨minor, hb, h⟩ := Option.bind_eq_some_iff.1 h
      obtain ⟨patch, hc, h⟩ := Option.bind_eq_some_iff.1 h
      cases h
      exact ⟨a, b, c, by rw [hnumbers]; rfl, ha, hb, hc⟩
    · cases h
  · rintro ⟨a, b, c, hnumbers, ha, hb, hc⟩
    obtain ⟨⟨ds, r⟩, hfound, rfl⟩ := Option.map_eq_some_iff.1 hnumbers
    rw [hfound]
    simp only [ha, hb, hc]
    rfl

/-- **The numeric triple of a version** is read as it is said above. -/
theorem numeric?_eq_some_iff {v : String} {t : Triple} : numeric? v = some t ↔ Numbered v t := by
  rw [numeric?, numericChars_eq_some]
  simp only [part?_eq_some]
  constructor
  · rintro ⟨a, b, c, hnumbers, ⟨ha, hmajor⟩, ⟨hb, hminor⟩, hc, hpatch⟩
    obtain ⟨⟨ds, rest⟩, hfound, rfl⟩ := Option.map_eq_some_iff.1 hnumbers
    obtain ⟨hsplit, -, -, hstop⟩ := numbers?_eq_some_iff.1 hfound
    obtain ⟨lead, hlead, hv⟩ := exists_lead v.toList
    refine ⟨lead, hlead, a, b, c, rest, ?_, ha, hb, hc, hmajor, hminor, hpatch, hstop⟩
    rw [hsplit] at hv
    simpa [join] using hv
  · rintro ⟨lead, hlead, a, b, c, rest, hv, ha, hb, hc, hmajor, hminor, hpatch, hstop⟩
    have hruns : ∀ e ∈ [a, b, c], IsRun isDecimalDigit e := by
      simpa using ⟨isRun_isDecimalDigit (isRun_of_natural? ha), isRun_isDecimalDigit (isRun_of_natural? hb),
        isRun_isDecimalDigit (isRun_of_natural? hc)⟩
    obtain ⟨hne, hdigits⟩ := hruns a (by simp)
    obtain ⟨d, ds, rfl⟩ := List.exists_cons_of_ne_nil hne
    have hdrop : dropLead v.toList = join ['.'] [d :: ds, b, c] ++ rest := by
      rw [hv]
      simpa [join] using dropLead_append hlead (hdigits d List.mem_cons_self) (ds ++ '.' :: b ++ '.' :: c ++ rest)
    have hfound : numbers? 2 (dropLead v.toList) = some ([d :: ds, b, c], rest) :=
      numbers?_eq_some_iff.2 ⟨hdrop, rfl, hruns, hstop⟩
    refine ⟨d :: ds, b, c, ?_, ⟨ha, hmajor⟩, ⟨hb, hminor⟩, hc, hpatch⟩
    rw [hfound, Option.map_some]

instance (v : String) (t : Triple) : Decidable (Numbered v t) := decidable_of_iff _ numeric?_eq_some_iff

/-- A version with a triple has a digit. -/
theorem Numbered.exists_isDigit {v : String} {t : Triple} (h : Numbered v t) : ∃ c ∈ v.toList, c.isDigit = true := by
  obtain ⟨lead, -, a, b, c, rest, hv, ha, -⟩ := h
  obtain ⟨hne, hdigits⟩ := isRun_of_natural? ha
  obtain ⟨d, hd⟩ := List.exists_mem_of_ne_nil a hne
  exact ⟨d, by simp [hv, hd], hdigits d hd⟩

theorem Numbered.unique {v : String} {t u : Triple} (ht : Numbered v t) (hu : Numbered v u) : t = u :=
  Option.some.inj ((numeric?_eq_some_iff.2 ht).symm.trans (numeric?_eq_some_iff.2 hu))

end Version

end Upkeep
