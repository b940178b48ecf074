import Upkeep.Json.Printer
import Upkeep.Problem
import Upkeep.Text.Blank
import Upkeep.Text.Search

/-!
# Replacing one value in a text

A manifest is maintained by hand, so a value is replaced in its text and everything around it stays.
The first place that reads `"name" : "value"`, with blanks or without, is the one that is changed;
the text need not be JSON.

* `Patch.literal?`: the body of a string literal up to its closing quote.
* `Patch.text_of_find?`: a place that was found is a cut of the text.
* `Patch.apply`: the text with the value replaced.
-/

namespace Upkeep

open Text

namespace Patch

/-- What stands in front of a value: its name, a colon and the opening quote, with the text after
them. -/
def opening? (name s : List Char) : Option (List Char × List Char) :=
  match after? ('"' :: name ++ ['"']) s with
  | none => none
  | some r =>
    match r.dropWhile isBlank with
    | ':' :: r' =>
      match r'.dropWhile isBlank with
      | '"' :: r'' =>
        some ('"' :: name ++ '"' :: r.takeWhile isBlank ++ ':' :: r'.takeWhile isBlank ++ ['"'], r'')
      | _ => none
    | _ => none

/-- The body of a string literal, still escaped, and the text from its closing quote on. A backslash
takes the next character along, which may not be a line feed. -/
def literal? : List Char → Option (List Char × List Char)
  | [] => none
  | c :: r =>
    if c = '"' then some ([], c :: r)
    else if c = '\\' then
      match r with
      | [] => none
      | d :: r =>
        if d = '\n' then none else (literal? r).map fun (b, r) => (c :: d :: b, r)
    else (literal? r).map fun (b, r) => (c :: b, r)

/-- The place of a value in a text: what stands before it, its escaped body, and what follows. -/
structure Place where
  before : List Char
  body : List Char
  after : List Char
  deriving DecidableEq, Inhabited

/-- The whole text around a place. -/
def Place.text (p : Place) : List Char := p.before ++ p.body ++ p.after

/-- The place of a value whose pair begins a text. -/
def at? (name s : List Char) : Option Place :=
  match opening? name s with
  | none => none
  | some (lead, r) => (literal? r).map fun (body, rest) => ⟨lead, body, rest⟩

/-- The first place of a value. -/
def find? (name : List Char) : List Char → Option Place
  | [] => none
  | c :: r =>
    match at? name (c :: r) with
    | some p => some p
    | none => (find? name r).map fun p => { p with before := c :: p.before }

theorem eq_of_opening? {name s lead r : List Char} (h : opening? name s = some (lead, r)) :
    s = lead ++ r := by
  unfold opening? at h
  split at h
  · simp at h
  · rename_i t ht
    rw [after?_eq_some.1 ht]
    split at h
    · rename_i u hu
      split at h
      · rename_i v hv
        obtain ⟨rfl, rfl⟩ := Prod.mk.inj (Option.some.inj h)
        have h1 := t.takeWhile_append_dropWhile (p := isBlank)
        have h2 := u.takeWhile_append_dropWhile (p := isBlank)
        rw [hv] at h2
        rw [hu] at h1
        conv => lhs; rw [← h1, ← h2]
        simp
      · simp at h
    · simp at h

theorem eq_of_literal? {s body r : List Char} (h : literal? s = some (body, r)) :
    s = body ++ r := by
  fun_induction literal? s generalizing body r with
  | case1 => simp at h
  | case2 r' => obtain ⟨rfl, rfl⟩ := Prod.mk.inj (Option.some.inj h); rfl
  | case3 | case4 => simp at h
  | case5 d r' _ _ ih =>
    obtain ⟨⟨b, r''⟩, hb, hr⟩ := Option.map_eq_some_iff.1 h
    obtain ⟨rfl, rfl⟩ := Prod.mk.inj hr
    simp [ih hb]
  | case6 c r' _ _ ih =>
    obtain ⟨⟨b, r''⟩, hb, hr⟩ := Option.map_eq_some_iff.1 h
    obtain ⟨rfl, rfl⟩ := Prod.mk.inj hr
    simp [ih hb]

theorem text_of_at? {name s : List Char} {p : Place} (h : at? name s = some p) : p.text = s := by
  unfold at? at h
  split at h
  · simp at h
  · rename_i lead r ho
    obtain ⟨⟨b, r'⟩, hb, rfl⟩ := Option.map_eq_some_iff.1 h
    simp [Place.text, eq_of_opening? ho, eq_of_literal? hb]

theorem text_of_find? {name s : List Char} {p : Place} (h : find? name s = some p) :
    p.text = s := by
  induction s generalizing p with
  | nil => simp [find?] at h
  | cons c r ih =>
    unfold find? at h
    split at h
    · rename_i q hq
      obtain rfl := Option.some.inj h
      exact text_of_at? hq
    · obtain ⟨q, hq, rfl⟩ := Option.map_eq_some_iff.1 h
      simpa [Place.text] using ih hq

/-- The escaped value of a variable, as it stands in a text. -/
def current? (name text : String) : Option String :=
  (find? name.toList text.toList).map (String.ofList ·.body)

/-- A text with the value of a variable replaced; none when the text holds the value already. -/
def apply (name text value : String) : Except Problem (Option String) :=
  match find? name.toList text.toList with
  | none => .error (.patternNotFound name)
  | some p =>
    let new := Json.encode value.toList
    if p.body = new then .ok none else .ok (some (String.ofList (p.before ++ new ++ p.after)))

end Patch

end Upkeep
