import Mathlib.Data.List.DropRight
import Upkeep.Proofs.Json.Literal
import Upkeep.Proofs.Json.Numeral

/-!
# The grammar of JSON

The texts of a value, as a grammar that says nothing of reading: what stands in brackets, where blanks
may stand, and how deep brackets may nest. The reader accepts a text exactly when the grammar derives
it, and the value is the derived one; so an edit of a text can be followed in its derivation.

* `Spells d k c v`: `c` is a text of `v`, in a part of kind `k` inside which `d` levels may open.
* `parseChars_eq_ok`: **the reader accepts what the grammar derives.**
-/

namespace Upkeep.Json

open Text

/-- A text of JSON blanks only. -/
def Spaces (w : List Char) : Prop := ∀ c ∈ w, isSpace c = true

/-- A value without structure, but for strings. -/
inductive Atom : List Char → Json → Prop where
  | null : Atom "null".toList .null
  | truth : Atom "true".toList (.bool true)
  | falsity : Atom "false".toList (.bool false)
  | number {l : List Char} (h : IsNumber l) : Atom l (.number (String.ofList l))

/-- The parts of a text: a value, a value among blanks, and the insides of the two kinds of brackets. -/
inductive Kind where
  | value
  | slot
  | items
  | members
  deriving DecidableEq

/-- The name of a member, with the blanks around it. -/
def label (w raw w' : List Char) : List Char := w ++ '"' :: raw ++ '"' :: w'

/-- The texts of a value. The insides of brackets are texts of the array or object that they make. -/
inductive Spells : Nat → Kind → List Char → Json → Prop where
  | atom {d : Nat} {c : List Char} {v : Json} (h : Atom c v) : Spells d .value c v
  | string {d : Nat} {raw text : List Char} (h : Literal raw text) :
      Spells d .value ('"' :: raw ++ ['"']) (.string (String.ofList text))
  | noItems {d : Nat} {w : List Char} (hw : Spaces w) :
      Spells (d + 1) .value ('[' :: w ++ [']']) (.array [])
  | array {d : Nat} {c : List Char} {v : Json} (h : Spells d .items c v) :
      Spells (d + 1) .value ('[' :: c ++ [']']) v
  | noMembers {d : Nat} {w : List Char} (hw : Spaces w) :
      Spells (d + 1) .value ('{' :: w ++ ['}']) (.object [])
  | object {d : Nat} {c : List Char} {v : Json} (h : Spells d .members c v) :
      Spells (d + 1) .value ('{' :: c ++ ['}']) v
  | slot {d : Nat} {w c w' : List Char} {v : Json} (hw : Spaces w) (h : Spells d .value c v)
      (hw' : Spaces w') : Spells d .slot (w ++ c ++ w') v
  | item {d : Nat} {c : List Char} {v : Json} (h : Spells d .slot c v) :
      Spells d .items c (.array [v])
  | items {d : Nat} {c t : List Char} {v : Json} {vs : List Json} (h : Spells d .slot c v)
      (ht : Spells d .items t (.array vs)) : Spells d .items (c ++ ',' :: t) (.array (v :: vs))
  | member {d : Nat} {w raw w' name c : List Char} {v : Json} (hw : Spaces w)
      (hn : Literal raw name) (hw' : Spaces w') (h : Spells d .slot c v) :
      Spells d .members (label w raw w' ++ ':' :: c) (.object [(String.ofList name, v)])
  | members {d : Nat} {w raw w' name c t : List Char} {v : Json} {ms : List (String × Json)}
      (hw : Spaces w) (hn : Literal raw name) (hw' : Spaces w') (h : Spells d .slot c v)
      (ht : Spells d .members t (.object ms)) :
      Spells d .members (label w raw w' ++ ':' :: c ++ ',' :: t)
        (.object ((String.ofList name, v) :: ms))

variable {d : Nat} {c s r w w' : List Char} {v : Json}

theorem Spaces.append (h : Spaces w) (h' : Spaces w') : Spaces (w ++ w') := fun c hc =>
  (List.mem_append.1 hc).elim (h c) (h' c)

theorem spaces_nil : Spaces [] := by simp [Spaces]

/-- The insides of brackets may begin with more blanks. -/
theorem Spells.pad_items (hw : Spaces w) (h : Spells d .items c v) : Spells d .items (w ++ c) v := by
  have hslot {c : List Char} {v : Json} (h : Spells d .slot c v) : Spells d .slot (w ++ c) v := by
    cases h with
    | slot hw₁ h hw₂ =>
      rw [← List.append_assoc, ← List.append_assoc]
      exact .slot (hw.append hw₁) h hw₂
  cases h with
  | item h => exact .item (hslot h)
  | items h ht => rw [← List.append_assoc]; exact .items (hslot h) ht

theorem Spells.pad_members (hw : Spaces w) (h : Spells d .members c v) :
    Spells d .members (w ++ c) v := by
  cases h with
  | member hw₁ hn hw₂ h =>
    have := Spells.member (hw.append hw₁) hn hw₂ h
    simpa [label] using this
  | members hw₁ hn hw₂ h ht =>
    have := Spells.members (hw.append hw₁) hn hw₂ h ht
    simpa [label] using this

/-! ### What the reader accepts is derived -/

theorem skipSpace_split (s : List Char) : ∃ w, Spaces w ∧ s = w ++ skipSpace s :=
  ⟨s.takeWhile isSpace, fun _ => List.mem_takeWhile_imp, (List.takeWhile_append_dropWhile).symm⟩

theorem word_eq_ok {e s r : List Char} : word e s = .ok r ↔ s = e ++ r := by
  induction e generalizing s with
  | nil => simp [word, eq_comm]
  | cons x e ih =>
    cases s with
    | nil => simp [word]
    | cons c s =>
      by_cases h : c = x
      · simp [word, h, ih]
      · simp [word, h]

/-- With so much fuel a value that is read is derived. -/
def ValueSound (n : Nat) : Prop := ∀ ⦃d s v r⦄, value n d s = .ok (v, r) →
  ∃ w c, Spaces w ∧ s = w ++ c ++ r ∧ Spells d .value c v

/-- With so much fuel items that are read are derived. -/
def ItemsSound (n : Nat) : Prop := ∀ ⦃d s vs r⦄, items n d s = .ok (vs, r) →
  ∃ c, s = c ++ ']' :: r ∧ Spells d .items c (.array vs)

/-- With so much fuel members that are read are derived. -/
def MembersSound (n : Nat) : Prop := ∀ ⦃d s ms r⦄, members n d s = .ok (ms, r) →
  ∃ c, s = c ++ '}' :: r ∧ Spells d .members c (.object ms)

variable {n : Nat}

theorem valueSound_succ (hi : ItemsSound n) (hm : MembersSound n) : ValueSound (n + 1) := by
  intro d s v r h
  obtain ⟨w, hw, hs⟩ := skipSpace_split s
  rw [hs]
  unfold value at h
  split at h
  · simp at h
  rename_i c t hc
  rw [hc]
  -- it is enough to derive what was read from the first character on
  suffices hv : ∃ e, c :: t = e ++ r ∧ Spells d .value e v by
    obtain ⟨e, he, hv⟩ := hv
    exact ⟨w, e, hw, by rw [he, List.append_assoc], hv⟩
  have hword {e : List Char} {u : Json} (hu : Atom (c :: e) u)
      (h : (word e t).map (fun r => (u, r)) = .ok (v, r)) :
      ∃ e, c :: t = e ++ r ∧ Spells d .value e v := by
    obtain ⟨r', hr', hvr⟩ := Except.map_eq_ok.1 h
    obtain ⟨rfl, rfl⟩ := Prod.mk.inj hvr
    exact ⟨c :: e, by rw [word_eq_ok.1 hr']; rfl, .atom hu⟩
  split_ifs at h with h1 h2 h3 h4 h5 h6 h7
  · exact hword (by rw [h1]; exact .null) h
  · exact hword (by rw [h2]; exact .truth) h
  · exact hword (by rw [h3]; exact .falsity) h
  · obtain ⟨⟨x, r'⟩, hl, hvr⟩ := Except.map_eq_ok.1 h
    obtain ⟨rfl, rfl⟩ := Prod.mk.inj hvr
    obtain ⟨raw, hraw, rfl⟩ := stringLiteral_eq_ok.1 hl
    refine ⟨'"' :: raw ++ ['"'], by simp [h4], ?_⟩
    simpa using Spells.string (d := d) hraw
  · obtain ⟨⟨l, r'⟩, hl, hvr⟩ := Except.map_eq_ok.1 h
    obtain ⟨rfl, rfl⟩ := Prod.mk.inj hvr
    obtain ⟨hl', hnum⟩ := number?_local hl
    exact ⟨l, hl', .atom (.number hnum)⟩
  · split at h
    · simp at h
    rename_i d
    obtain ⟨w', hw', ht⟩ := skipSpace_split t
    split at h
    · simp at h
    rename_i b u hu
    rw [ht, hu, h6]
    split_ifs at h with hb
    · obtain ⟨rfl, rfl⟩ := Prod.mk.inj (Except.ok.inj h)
      exact ⟨'[' :: w' ++ [']'], by simp [hb], .noItems hw'⟩
    · obtain ⟨⟨vs, r'⟩, hl, hvr⟩ := Except.map_eq_ok.1 h
      obtain ⟨rfl, rfl⟩ := Prod.mk.inj hvr
      obtain ⟨e, he, hvs⟩ := hi hl
      exact ⟨'[' :: (w' ++ e) ++ [']'], by rw [he]; simp, .array (hvs.pad_items hw')⟩
  · split at h
    · simp at h
    rename_i d
    obtain ⟨w', hw', ht⟩ := skipSpace_split t
    split at h
    · simp at h
    rename_i b u hu
    rw [ht, hu, h7]
    split_ifs at h with hb
    · obtain ⟨rfl, rfl⟩ := Prod.mk.inj (Except.ok.inj h)
      exact ⟨'{' :: w' ++ ['}'], by simp [hb], .noMembers hw'⟩
    · obtain ⟨⟨ms, r'⟩, hl, hvr⟩ := Except.map_eq_ok.1 h
      obtain ⟨rfl, rfl⟩ := Prod.mk.inj hvr
      obtain ⟨e, he, hms⟩ := hm hl
      exact ⟨'{' :: (w' ++ e) ++ ['}'], by rw [he]; simp, .object (hms.pad_members hw')⟩

/-- A value that was read, with the blanks up to the next mark. -/
theorem ValueSound.slot (hv : ValueSound n) (h : value n d s = .ok (v, r)) :
    ∃ c, s = c ++ skipSpace r ∧ Spells d .slot c v := by
  obtain ⟨w, c, hw, rfl, hc⟩ := hv h
  obtain ⟨w', hw', hr⟩ := skipSpace_split r
  exact ⟨w ++ c ++ w', by rw [List.append_assoc _ w', ← hr], .slot hw hc hw'⟩

theorem itemsSound_succ (hv : ValueSound n) (hi : ItemsSound n) : ItemsSound (n + 1) := by
  intro d s vs r h
  unfold items at h
  split at h
  · simp at h
  rename_i v r₁ hval
  obtain ⟨c, rfl, hc⟩ := hv.slot hval
  split at h
  · simp at h
  rename_i m r₂ hm
  rw [hm]
  split_ifs at h with h1 h2
  · obtain ⟨rfl, rfl⟩ := Prod.mk.inj (Except.ok.inj h)
    exact ⟨c, by rw [h1], .item hc⟩
  · obtain ⟨w, hw, hr₂⟩ := skipSpace_split r₂
    split at h
    · simp at h
    rename_i b r₃ hb
    split_ifs at h
    obtain ⟨⟨us, r'⟩, hus, hvr⟩ := Except.map_eq_ok.1 h
    obtain ⟨rfl, rfl⟩ := Prod.mk.inj hvr
    obtain ⟨e, he, hes⟩ := hi hus
    exact ⟨c ++ ',' :: (w ++ e), by rw [hr₂, hb, he, h2]; simp, .items hc (hes.pad_items hw)⟩

theorem membersSound_succ (hv : ValueSound n) (hm : MembersSound n) : MembersSound (n + 1) := by
  intro d s ms r h
  unfold members at h
  split at h
  swap; · simp at h
  rename_i s
  split at h
  · simp at h
  rename_i name r₁ hname
  obtain ⟨raw, hraw, rfl⟩ := stringLiteral_eq_ok.1 hname
  obtain ⟨w, hw, hr₁⟩ := skipSpace_split r₁
  split at h
  · simp at h
  swap; · simp at h
  rename_i r₂ hr₂
  split at h
  · simp at h
  rename_i v r₃ hval
  obtain ⟨c, rfl, hc⟩ := hv.slot hval
  have hstart (u : List Char) : '"' :: (raw ++ '"' :: (w ++ ':' :: (c ++ u))) =
      label [] raw w ++ ':' :: c ++ u := by simp [label]
  split at h
  · simp at h
  rename_i m r₄ hm₄
  rw [hr₁, hr₂, hm₄, hstart]
  split_ifs at h with h1 h2
  · obtain ⟨rfl, rfl⟩ := Prod.mk.inj (Except.ok.inj h)
    refine ⟨label [] raw w ++ ':' :: c, by rw [h1], ?_⟩
    simpa using Spells.member spaces_nil hraw hw hc
  · obtain ⟨w', hw', hr₄⟩ := skipSpace_split r₄
    split at h
    · simp at h
    rename_i b r₅ hb
    split_ifs at h
    obtain ⟨⟨us, r'⟩, hus, hvr⟩ := Except.map_eq_ok.1 h
    obtain ⟨rfl, rfl⟩ := Prod.mk.inj hvr
    obtain ⟨e, he, hes⟩ := hm hus
    refine ⟨label [] raw w ++ ':' :: c ++ ',' :: (w' ++ e), by rw [hr₄, hb, he, h2]; simp, ?_⟩
    simpa using Spells.members spaces_nil hraw hw hc (hes.pad_members hw')

theorem reader_sound (n : Nat) : ValueSound n ∧ ItemsSound n ∧ MembersSound n := by
  -- the three readers call one another, each time with one unit of fuel less
  induction n with
  | zero => simp [ValueSound, ItemsSound, MembersSound, value, items, members]
  | succ n ih =>
    obtain ⟨hv, hi, hm⟩ := ih
    exact ⟨valueSound_succ hi hm, itemsSound_succ hv hi, membersSound_succ hv hm⟩

/-! ### What is derived is accepted -/

/-- A character that begins a value. -/
def opens (c : Char) : Bool := c.isDigit || ['n', 't', 'f', '"', '-', '[', '{'].contains c

theorem opens_iff {x : Char} : opens x = true ↔ x = 'n' ∨ x = 't' ∨ x = 'f' ∨ x = '"' ∨
    (x = '-' ∨ x.isDigit = true) ∨ x = '[' ∨ x = '{' := by
  simp only [opens, Bool.or_eq_true, List.contains_iff_mem, List.mem_cons, List.not_mem_nil,
    or_false]
  tauto

theorem isSpace_of_opens {x : Char} (h : opens x = true) : isSpace x = false := by
  by_contra hx
  rw [Bool.not_eq_false, isSpace] at hx
  simp only [Bool.or_eq_true, beq_iff_eq] at hx
  rcases hx with ((rfl | rfl) | rfl) | rfl <;> exact absurd h (by decide)

/-- A value begins with a character of its own. -/
theorem Spells.exists_opens (h : Spells d .value c v) : ∃ x t, c = x :: t ∧ opens x = true := by
  cases h with
  | atom h =>
    cases h with
    | null | truth | falsity => exact ⟨_, _, rfl, by decide⟩
    | number h =>
      obtain ⟨x, t, rfl, hx⟩ := h.first
      exact ⟨x, t, rfl, opens_iff.2 (by tauto)⟩
  | string | noItems | array | noMembers | object => exact ⟨_, _, rfl, by decide⟩

theorem skipSpace_append {x : Char} {t : List Char} (hw : Spaces w) (hx : isSpace x = false) :
    skipSpace (w ++ x :: t) = x :: t := by
  rw [skipSpace, List.dropWhile_append_of_pos hw]
  simp [hx]

/-- A text that may follow a value and its blanks. -/
def EndsSlot (r : List Char) : Prop := ∀ x ∈ r.head?, x = ',' ∨ x = ']' ∨ x = '}'

/-- The reader accepts a text in a part of some kind. -/
def Accepted (d : Nat) : Kind → List Char → Json → Prop
  | .value, c, v => ∀ n w r, Spaces w → EndsNumber r → c.length < n →
      value n d (w ++ c ++ r) = .ok (v, r)
  | .slot, c, v => ∀ n w r, Spaces w → EndsSlot r → c.length < n →
      ∃ w', Spaces w' ∧ value n d (w ++ c ++ r) = .ok (v, w' ++ r)
  | .items, c, v => ∃ vs, v = .array vs ∧ ∀ n r, c.length + 1 < n →
      items n d (skipSpace (c ++ ']' :: r)) = .ok (vs, r)
  | .members, c, v => ∃ ms, v = .object ms ∧ ∀ n r, c.length + 1 < n →
      members n d (skipSpace (c ++ '}' :: r)) = .ok (ms, r)

theorem exists_succ_of_lt {m : Nat} (h : m < n) : ∃ k, n = k + 1 ∧ m ≤ k := ⟨n - 1, by omega⟩

theorem accepted_atom (h : Atom c v) : Accepted d .value c v := by
  intro n w r hw hr hn
  obtain ⟨n, rfl, -⟩ := exists_succ_of_lt hn
  rw [List.append_assoc]
  cases h with
  | null => rw [value]; simp [skipSpace_append (x := 'n') hw, word, Except.map, isSpace]
  | truth => rw [value]; simp [skipSpace_append (x := 't') hw, word, Except.map, isSpace]
  | falsity => rw [value]; simp [skipSpace_append (x := 'f') hw, word, Except.map, isSpace]
  | number h =>
    have hread := h.read r hr
    obtain ⟨x, t, rfl, hx⟩ := h.first
    have hne : x ≠ 'n' ∧ x ≠ 't' ∧ x ≠ 'f' ∧ x ≠ '"' := by
      refine ⟨?_, ?_, ?_, ?_⟩ <;> (rintro rfl; exact absurd hx (by decide))
    rw [value, List.cons_append, skipSpace_append hw (isSpace_of_opens (opens_iff.2 (by tauto)))]
    simp only [hne, if_false, hx, if_true]
    rw [List.cons_append] at hread
    rw [hread]
    rfl

theorem accepted_string {raw text : List Char} (h : Literal raw text) :
    Accepted d .value ('"' :: raw ++ ['"']) (.string (String.ofList text)) := by
  intro n w r hw _ hn
  obtain ⟨n, rfl, -⟩ := exists_succ_of_lt hn
  have hs : w ++ ('"' :: raw ++ ['"']) ++ r = w ++ '"' :: (raw ++ '"' :: r) := by simp
  have hl : stringLiteral (raw ++ '"' :: r) = .ok (String.ofList text, r) :=
    stringLiteral_eq_ok.2 ⟨raw, by rwa [String.toList_ofList], rfl⟩
  rw [hs, value, skipSpace_append hw (by decide)]
  simp [hl, Except.map]

theorem accepted_slot {w₁ w₂ : List Char} (hw₁ : Spaces w₁) (h : Accepted d .value c v)
    (hw₂ : Spaces w₂) : Accepted d .slot (w₁ ++ c ++ w₂) v := by
  intro n w r hw hr hn
  refine ⟨w₂, hw₂, ?_⟩
  -- neither a blank nor a mark goes on with a number
  have hend : EndsNumber (w₂ ++ r) := by
    intro x hx
    cases w₂ with
    | nil => rcases hr x hx with rfl | rfl | rfl <;> decide
    | cons y w₂ =>
      obtain rfl : y = x := by simpa using hx
      have hy : isSpace y = true := hw₂ y (by simp)
      simp only [isSpace, Bool.or_eq_true, beq_iff_eq] at hy
      rcases hy with ((rfl | rfl) | rfl) | rfl <;> decide
  have hval := h n (w ++ w₁) (w₂ ++ r) (hw.append hw₁) hend (by simp at hn; omega)
  rw [← hval]
  simp

theorem skipSpace_skipSpace (s : List Char) : skipSpace (skipSpace s) = skipSpace s :=
  List.dropWhile_idempotent _ _

theorem value_skipSpace (hn : 0 < n) (s : List Char) : value n d (skipSpace s) = value n d s := by
  obtain ⟨n, rfl⟩ : ∃ m, n = m + 1 := ⟨n - 1, by omega⟩
  rw [value, value, skipSpace_skipSpace]

/-- The inside of an array begins with its first item. -/
theorem Spells.skipSpace_items (h : Spells d .items c v) (r : List Char) :
    ∃ x t, skipSpace (c ++ r) = x :: t ∧ opens x = true := by
  have hslot {c : List Char} {v : Json} (h : Spells d .slot c v) (r : List Char) :
      ∃ x t, skipSpace (c ++ r) = x :: t ∧ opens x = true := by
    cases h with
    | slot hw h hw' =>
      obtain ⟨x, t, rfl, hx⟩ := h.exists_opens
      rw [List.append_assoc, List.append_assoc, List.cons_append,
        skipSpace_append hw (isSpace_of_opens hx)]
      exact ⟨x, _, rfl, hx⟩
  cases h with
  | item h => exact hslot h r
  | items h _ => rw [List.append_assoc]; exact hslot h _

theorem skipSpace_label {raw : List Char} (hw : Spaces w) (r : List Char) :
    skipSpace (label w raw w' ++ r) = '"' :: (raw ++ '"' :: (w' ++ r)) := by
  have hs : label w raw w' ++ r = w ++ '"' :: (raw ++ '"' :: (w' ++ r)) := by simp [label]
  rw [hs, skipSpace_append hw (by decide)]

/-- The inside of an object begins with the quote of its first name. -/
theorem Spells.skipSpace_members (h : Spells d .members c v) (r : List Char) :
    ∃ t, skipSpace (c ++ r) = '"' :: t := by
  cases h with
  | member hw => rw [List.append_assoc]; exact ⟨_, skipSpace_label hw _⟩
  | members hw => rw [List.append_assoc, List.append_assoc]; exact ⟨_, skipSpace_label hw _⟩

/-- A value in its place, read in front of the mark that ends it. -/
theorem Accepted.read_slot (h : Accepted d .slot c v) (hn : c.length < n) {x : Char}
    (hx : x = ',' ∨ x = ']' ∨ x = '}') (r : List Char) :
    ∃ r', value n d (c ++ x :: r) = .ok (v, r') ∧ skipSpace r' = x :: r := by
  obtain ⟨w, hw, hval⟩ := h n [] (x :: r) spaces_nil (by simpa [EndsSlot] using hx) hn
  refine ⟨w ++ x :: r, hval, skipSpace_append hw ?_⟩
  rcases hx with rfl | rfl | rfl <;> decide

theorem accepted_item (h : Accepted d .slot c v) : Accepted d .items c (.array [v]) := by
  refine ⟨[v], rfl, fun n r hn => ?_⟩
  obtain ⟨n, rfl, hn⟩ := exists_succ_of_lt hn
  obtain ⟨r', hval, hr'⟩ := h.read_slot (n := n) (by omega) (x := ']') (by simp) r
  rw [items, value_skipSpace (by omega), hval]
  simp [hr']

theorem accepted_items {t : List Char} {vs : List Json} (h : Accepted d .slot c v)
    (ht : Spells d .items t (.array vs)) (iht : Accepted d .items t (.array vs)) :
    Accepted d .items (c ++ ',' :: t) (.array (v :: vs)) := by
  obtain ⟨us, hus, iht⟩ := iht
  obtain rfl := Json.array.inj hus
  refine ⟨v :: vs, rfl, fun n r hn => ?_⟩
  obtain ⟨n, rfl, hn⟩ := exists_succ_of_lt hn
  simp only [List.length_append, List.length_cons] at hn
  obtain ⟨r', hval, hr'⟩ := h.read_slot (n := n) (by omega) (x := ',') (by simp) (t ++ ']' :: r)
  have hrest := iht n r (by omega)
  -- behind the comma the reader finds an item, not a bracket that closes the array too early
  obtain ⟨x, u, hxu, hx⟩ := ht.skipSpace_items (']' :: r)
  have hxb : x ≠ ']' := by rintro rfl; exact absurd hx (by decide)
  rw [hxu] at hrest
  rw [List.append_assoc, List.cons_append, items, value_skipSpace (by omega), hval]
  simp [hr', hxu, hxb, hrest, Except.map]

theorem accepted_member {raw name : List Char} (hw : Spaces w) (hn : Literal raw name)
    (hw' : Spaces w') (h : Accepted d .slot c v) :
    Accepted d .members (label w raw w' ++ ':' :: c) (.object [(String.ofList name, v)]) := by
  refine ⟨_, rfl, fun n r hlen => ?_⟩
  obtain ⟨n, rfl, hlen⟩ := exists_succ_of_lt hlen
  simp only [List.length_append, List.length_cons] at hlen
  obtain ⟨r', hval, hr'⟩ := h.read_slot (n := n) (by omega) (x := '}') (by simp) r
  have hl : stringLiteral (raw ++ '"' :: (w' ++ ':' :: (c ++ '}' :: r))) =
      .ok (String.ofList name, w' ++ ':' :: (c ++ '}' :: r)) :=
    stringLiteral_eq_ok.2 ⟨raw, by rwa [String.toList_ofList], rfl⟩
  rw [List.append_assoc, skipSpace_label hw, List.cons_append, members]
  simp [hl, skipSpace_append (x := ':') hw', isSpace, hval, hr']

theorem accepted_members {raw name t : List Char} {ms : List (String × Json)} (hw : Spaces w)
    (hn : Literal raw name) (hw' : Spaces w') (h : Accepted d .slot c v)
    (ht : Spells d .members t (.object ms)) (iht : Accepted d .members t (.object ms)) :
    Accepted d .members (label w raw w' ++ ':' :: c ++ ',' :: t)
      (.object ((String.ofList name, v) :: ms)) := by
  obtain ⟨us, hus, iht⟩ := iht
  obtain rfl := Json.object.inj hus
  refine ⟨_, rfl, fun n r hlen => ?_⟩
  obtain ⟨n, rfl, hlen⟩ := exists_succ_of_lt hlen
  simp only [List.length_append, List.length_cons] at hlen
  obtain ⟨r', hval, hr'⟩ := h.read_slot (n := n) (by omega) (x := ',') (by simp) (t ++ '}' :: r)
  have hrest := iht n r (by omega)
  obtain ⟨u, hu⟩ := ht.skipSpace_members ('}' :: r)
  rw [hu] at hrest
  have hl (z : List Char) : stringLiteral (raw ++ '"' :: z) = .ok (String.ofList name, z) :=
    stringLiteral_eq_ok.2 ⟨raw, by rwa [String.toList_ofList], rfl⟩
  have hs : label w raw w' ++ ':' :: c ++ ',' :: t ++ '}' :: r =
      label w raw w' ++ ':' :: (c ++ ',' :: (t ++ '}' :: r)) := by simp
  rw [hs, skipSpace_label hw, members]
  simp [hl, skipSpace_append (x := ':') hw', isSpace, hval, hr', hu, hrest, Except.map]

theorem accepted_noItems (hw : Spaces w) :
    Accepted (d + 1) .value ('[' :: w ++ [']']) (.array []) := by
  intro n w₀ r hw₀ _ hn
  obtain ⟨n, rfl, -⟩ := exists_succ_of_lt hn
  have hs : w₀ ++ ('[' :: w ++ [']']) ++ r = w₀ ++ '[' :: (w ++ ']' :: r) := by simp
  rw [hs, value, skipSpace_append hw₀ (by decide)]
  simp [skipSpace_append (x := ']') hw, isSpace]

theorem accepted_array (hc : Spells d .items c v) (h : Accepted d .items c v) :
    Accepted (d + 1) .value ('[' :: c ++ [']']) v := by
  obtain ⟨vs, rfl, h⟩ := h
  intro n w₀ r hw₀ _ hn
  obtain ⟨n, rfl, hn⟩ := exists_succ_of_lt hn
  have hread := h n r (by simp at hn; omega)
  obtain ⟨x, u, hxu, hx⟩ := hc.skipSpace_items (']' :: r)
  have hxb : x ≠ ']' := by rintro rfl; exact absurd hx (by decide)
  rw [hxu] at hread
  have hs : w₀ ++ ('[' :: c ++ [']']) ++ r = w₀ ++ '[' :: (c ++ ']' :: r) := by simp
  rw [hs, value, skipSpace_append hw₀ (by decide)]
  simp [hxu, hxb, hread, Except.map]

theorem accepted_noMembers (hw : Spaces w) :
    Accepted (d + 1) .value ('{' :: w ++ ['}']) (.object []) := by
  intro n w₀ r hw₀ _ hn
  obtain ⟨n, rfl, -⟩ := exists_succ_of_lt hn
  have hs : w₀ ++ ('{' :: w ++ ['}']) ++ r = w₀ ++ '{' :: (w ++ '}' :: r) := by simp
  rw [hs, value, skipSpace_append hw₀ (by decide)]
  simp [skipSpace_append (x := '}') hw, isSpace]

theorem accepted_object (hc : Spells d .members c v) (h : Accepted d .members c v) :
    Accepted (d + 1) .value ('{' :: c ++ ['}']) v := by
  obtain ⟨ms, rfl, h⟩ := h
  intro n w₀ r hw₀ _ hn
  obtain ⟨n, rfl, hn⟩ := exists_succ_of_lt hn
  have hread := h n r (by simp at hn; omega)
  obtain ⟨u, hu⟩ := hc.skipSpace_members ('}' :: r)
  rw [hu] at hread
  have hs : w₀ ++ ('{' :: c ++ ['}']) ++ r = w₀ ++ '{' :: (c ++ '}' :: r) := by simp
  rw [hs, value, skipSpace_append hw₀ (by decide)]
  simp [hu, hread, Except.map]

theorem Spells.accepted {k : Kind} (h : Spells d k c v) : Accepted d k c v := by
  -- every part is shorter than the whole, so fuel beyond the length of the text is enough for it
  induction h with
  | atom h => exact accepted_atom h
  | string h => exact accepted_string h
  | noItems hw => exact accepted_noItems hw
  | array h ih => exact accepted_array h ih
  | noMembers hw => exact accepted_noMembers hw
  | object h ih => exact accepted_object h ih
  | slot hw _ hw' ih => exact accepted_slot hw ih hw'
  | item _ ih => exact accepted_item ih
  | items _ ht ih iht => exact accepted_items ih ht iht
  | member hw hn hw' _ ih => exact accepted_member hw hn hw' ih
  | members hw hn hw' _ ht ih iht => exact accepted_members hw hn hw' ih ht iht

/-- **The reader accepts what the grammar derives**, and nothing else. -/
theorem parseChars_eq_ok : parseChars s = .ok v ↔ Spells maxDepth .slot s v := by
  constructor
  · intro h
    unfold parseChars at h
    split at h
    · simp at h
    rename_i u r hval
    obtain ⟨c, hs, hc⟩ := (reader_sound _).1.slot hval
    split at h
    · rename_i hr
      obtain rfl := Except.ok.inj h
      rw [hs, hr, List.append_nil]
      exact hc
    · simp at h
  · intro h
    obtain ⟨w, hw, hval⟩ := h.accepted (2 * s.length + 2) [] [] spaces_nil (by simp [EndsSlot])
      (by omega)
    rw [List.append_nil, List.nil_append] at hval
    have hend : skipSpace w = [] := List.dropWhile_eq_nil_iff.2 hw
    rw [parseChars, hval]
    simp [hend]

end Upkeep.Json
