import Upkeep.Proofs.Patch.Place

/-!
# The laws of a patch

A patch reads and writes one span of a text, and it does so like a field of a record: what is written
is read back, the last of two writes counts, and writing what is there changes nothing. The laws hold
for every text, JSON or not.

* `written`: the text after a patch.
* `written_of_find?`: only the span of the value changes.
* `lens_laws`: all laws together.
-/

namespace Upkeep.Patch

variable {name text : String} {p : Place}

/-- The text after a patch: itself when it holds the value already. -/
def written (name text value : String) : Except Problem String :=
  (apply name text value).map (·.getD text)

/-- The text around a place, with another value at it. -/
def Place.filled (p : Place) (value : String) : String :=
  String.ofList (p.before ++ Json.encode value.toList ++ p.after)

theorem apply_of_find? (h : find? name.toList text.toList = some p) (value : String) :
    apply name text value =
      .ok (if p.body = Json.encode value.toList then none else some (p.filled value)) := by
  simp only [apply, h, Place.filled]
  split <;> rfl

theorem apply_of_not_found (h : find? name.toList text.toList = none) (value : String) :
    apply name text value = .error (.patternNotFound name) := by
  simp [apply, h]

theorem current?_of_find? (h : find? name.toList text.toList = some p) :
    current? name text = some (String.ofList p.body) := by
  simp [current?, h]

theorem text_eq_of_find? (h : find? name.toList text.toList = some p) :
    text = String.ofList p.text := by
  rw [text_of_find? h, String.ofList_toList]

/-- Only the span of the value changes. -/
theorem written_of_find? (h : find? name.toList text.toList = some p) (value : String) :
    written name text value = .ok (p.filled value) := by
  rw [written, apply_of_find? h]
  by_cases hb : p.body = Json.encode value.toList
  · rw [if_pos hb]
    show Except.ok text = _
    rw [text_eq_of_find? h, Place.text, Place.filled, hb]
  · rw [if_neg hb]; rfl

/-- The place of a value that was written, and what the text holds there. -/
theorem find?_filled (h : find? name.toList text.toList = some p) (value : String) :
    find? name.toList (p.filled value).toList = some { p with body := Json.encode value.toList } := by
  rw [Place.filled, String.toList_ofList]
  exact find?_replace h (isBody_encode _)

/-- **The laws of a patch.** Either the pair stands nowhere, and every value is refused for that
reason. Or it has a place, and then a value that is written changes the span of the place and nothing
else, is found there and read back, is not written a second time, and gives way to the next one; the
value that was there before restores the text, if it was written in the usual way. -/
theorem lens_laws (name text d₁ d₂ : String) :
    (current? name text = none ∧ ∀ d, apply name text d = .error (.patternNotFound name)) ∨
    ∃ p, find? name.toList text.toList = some p ∧
      text = String.ofList (p.before ++ p.body ++ p.after) ∧
      current? name text = some (String.ofList p.body) ∧
      ∃ t, written name text d₁ = .ok t ∧
        t = String.ofList (p.before ++ Json.encode d₁.toList ++ p.after) ∧
        find? name.toList t.toList = some { p with body := Json.encode d₁.toList } ∧
        current? name t = some (String.ofList (Json.encode d₁.toList)) ∧
        apply name t d₁ = .ok none ∧
        written name t d₂ = written name text d₂ ∧
        ∀ d, p.body = Json.encode d.toList → written name t d = .ok text := by
  cases h : find? name.toList text.toList with
  | none => exact .inl ⟨by simp [current?, h], apply_of_not_found h⟩
  | some p =>
    have hfound := find?_filled h d₁
    have hnext (d : String) : written name (p.filled d₁) d = .ok (p.filled d) :=
      written_of_find? hfound d
    refine .inr ⟨p, rfl, text_eq_of_find? h, current?_of_find? h, p.filled d₁,
      written_of_find? h d₁, rfl, hfound, current?_of_find? hfound, ?_, ?_, fun d hd => ?_⟩
    · rw [apply_of_find? hfound, if_pos rfl]
    · rw [hnext, written_of_find? h]
    · rw [hnext, text_eq_of_find? h, Place.filled, Place.text, hd]

end Upkeep.Patch
