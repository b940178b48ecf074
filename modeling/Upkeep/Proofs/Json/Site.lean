import Upkeep.Proofs.Json.Layout

/-!
# Sites

The value of one member may be exchanged for another one, in the tree and in the text. A site is a tree
without the value of one of its members. A text that is cut at a colon of its structure is cut at a
site: what stands behind the colon is a text of the value, and another text in its place makes the tree
with another value at the site.

* `Site.fill`: the tree with a value at the site.
* `Spells.cut`: **every colon of the structure is the colon of a member.**
-/

namespace Upkeep.Json

open Mode

/-- A tree without the value of one member, which stands at any depth. -/
inductive Site where
  | here (before : List (String × Json)) (name : String) (after : List (String × Json))
  | item (before : List Json) (inner : Site) (after : List Json)
  | member (before : List (String × Json)) (name : String) (inner : Site)
      (after : List (String × Json))

namespace Site

/-- The name of the member without a value. -/
def name : Site → String
  | here _ name _ => name
  | item _ S _ => S.name
  | member _ _ S _ => S.name

/-- The tree with a value for the member. -/
def fill : Site → Json → Json
  | here l name r, v => .object (l ++ (name, v) :: r)
  | item l S r, v => .array (l ++ S.fill v :: r)
  | member l name S r, v => .object (l ++ (name, S.fill v) :: r)

/-- A site of an array with another item in front. -/
def consItem (u : Json) : Site → Site
  | item l S r => item (u :: l) S r
  | S => S

/-- A site of an object with another member in front. -/
def consMember (m : String × Json) : Site → Site
  | here l name r => here (m :: l) name r
  | member l name S r => member (m :: l) name S r
  | S => S

variable {S : Site} {v : Json}

@[simp] theorem name_consItem (u : Json) (S : Site) : (S.consItem u).name = S.name := by
  cases S <;> rfl

@[simp] theorem name_consMember (m : String × Json) (S : Site) : (S.consMember m).name = S.name := by
  cases S <;> rfl

theorem fill_consItem {vs : List Json} (h : S.fill v = .array vs) (u : Json) :
    (S.consItem u).fill v = .array (u :: vs) := by
  cases S with
  | here | member => simp [fill] at h
  | item l S r => rw [← Json.array.inj h]; rfl

theorem fill_consMember {ms : List (String × Json)} (h : S.fill v = .object ms)
    (m : String × Json) : (S.consMember m).fill v = .object (m :: ms) := by
  cases S with
  | here l name r => rw [← Json.object.inj h]; rfl
  | item => simp [fill] at h
  | member l name S r => rw [← Json.object.inj h]; rfl

end Site

/-- A text that is cut at the colon of a member: where its name stands, where its value ends, and that
another text of a value may stand there. -/
structure Cut (d : Nat) (k : Kind) (x y : List Char) (v : Json) where
  site : Site
  /-- What stands in front of the name, the name as it is written, and the blanks behind it. -/
  front : List Char
  raw : List Char
  gap : List Char
  /-- The text of the value with its blanks, and what follows it. -/
  text : List Char
  rest : List Char
  depth : Nat
  old : Json
  left_eq : x = front ++ '"' :: raw ++ '"' :: gap
  right_eq : y = text ++ rest
  name : Literal raw site.name.toList
  spaces : Spaces gap
  spells : Spells depth .slot text old
  fill_eq : v = site.fill old
  fill : ∀ {c u}, Spells depth .slot c u → Spells d k (x ++ ':' :: (c ++ rest)) (site.fill u)

variable {d d' : Nat} {k k' : Kind} {c l r t w w' x x' y y' : List Char} {v v' : Json}
  {vs : List Json} {ms : List (String × Json)}

/-- A cut of a text is a cut of a text around it. -/
def Cut.wrap (C : Cut d k x y v) (S : Site) (l r : List Char) (hx : x' = l ++ x) (hy : y' = y ++ r)
    (hname : S.name = C.site.name) (hv : v' = S.fill C.old)
    (h : ∀ {t u}, Spells d k t (C.site.fill u) → Spells d' k' (l ++ t ++ r) (S.fill u)) :
    Cut d' k' x' y' v' where
  site := S
  front := l ++ C.front
  raw := C.raw
  gap := C.gap
  text := C.text
  rest := C.rest ++ r
  depth := C.depth
  old := C.old
  left_eq := by simpa [hx] using congrArg (l ++ ·) C.left_eq
  right_eq := by simpa [hy] using congrArg (· ++ r) C.right_eq
  name := by rw [hname]; exact C.name
  spaces := C.spaces
  spells := C.spells
  fill_eq := hv
  fill hu := by simpa [hx] using h (C.fill hu)

theorem append_eq_append_cons {α : Type} {a b x y : List α} {e : α} (h : a ++ b = x ++ e :: y) :
    (∃ z, a = x ++ e :: z ∧ y = z ++ b) ∨ ∃ z, x = a ++ z ∧ b = z ++ e :: y := by
  rcases List.append_eq_append_iff.1 h with ⟨z, hx, hb⟩ | ⟨z, ha, hy⟩
  · exact .inr ⟨z, hx, hb⟩
  · cases z with
    | nil => exact .inr ⟨[], by simpa using ha.symm, by simpa using hy.symm⟩
    | cons f z =>
      obtain ⟨rfl, rfl⟩ := List.cons.inj hy
      exact .inl ⟨z, ha, rfl⟩

/-! ### Where a colon cannot stand -/

theorem Spaces.no_colon {w : List Char} (hw : Spaces w) (h : w = x ++ ':' :: y) : False := by
  have := hw ':' (by simp [h])
  exact absurd this (by decide)

theorem Atom.no_colon (ha : Atom c v) (h : c = x ++ ':' :: y) : False := by
  have hmem : ':' ∈ c := by simp [h]
  cases ha with
  | null | truth | falsity => exact absurd hmem (by decide)
  | number hn => exact absurd (hn.chars _ hmem) (by decide)

/-- A colon in a string is none of the structure. -/
theorem Literal.no_colon {raw text : List Char} (hn : Literal raw text)
    (h : '"' :: raw ++ ['"'] = x ++ ':' :: y) (hx : run outside x = outside) : False := by
  cases x with
  | nil => exact absurd (List.cons.inj h).1 (by decide)
  | cons q x =>
    obtain ⟨rfl, h'⟩ := List.cons.inj h
    rcases append_eq_append_cons h' with ⟨z, hz, -⟩ | ⟨z, -, hz⟩
    · exact hn.run_prefix hz hx
    · cases z with
      | nil => exact absurd (List.cons.inj hz).1 (by decide)
      | cons e z => simp at hz

/-- A colon of the structure stands behind a name, not in it. -/
theorem label_no_colon {w raw text w' : List Char} (hw : Spaces w) (hn : Literal raw text)
    (hw' : Spaces w') (h : label w raw w' = x ++ ':' :: y) (hx : run outside x = outside) : False := by
  have hs : label w raw w' = w ++ (('"' :: raw ++ ['"']) ++ w') := by simp [label]
  rcases append_eq_append_cons (hs.symm.trans h) with ⟨z, hz, -⟩ | ⟨z, rfl, hz⟩
  · exact hw.no_colon hz
  rw [run_append, hw.run_eq] at hx
  rcases append_eq_append_cons hz with ⟨u, hu, -⟩ | ⟨u, -, hu⟩
  · exact hn.no_colon hu hx
  · exact hw'.no_colon hu

theorem run_cons_structure {e : Char} (he : isStructure e = true ∧ e ≠ '"') (s : List Char) :
    run outside (e :: s) = run outside s := by
  rw [run_cons, next, if_neg he.2, if_pos he.1]

/-- A colon between brackets stands in what they enclose. -/
theorem colon_between {b e : Char} (hb : isStructure b = true ∧ b ≠ '"') (hbc : b ≠ ':')
    (hec : e ≠ ':') (h : b :: c ++ [e] = x ++ ':' :: y) (hx : run outside x = outside) :
    ∃ x' y', x = b :: x' ∧ y = y' ++ [e] ∧ c = x' ++ ':' :: y' ∧ run outside x' = outside := by
  cases x with
  | nil => exact absurd (List.cons.inj h).1 hbc
  | cons f x =>
    obtain ⟨rfl, h'⟩ := List.cons.inj h
    rw [run_cons_structure hb] at hx
    rcases append_eq_append_cons h' with ⟨z, hz, rfl⟩ | ⟨z, -, hz⟩
    · exact ⟨x, z, rfl, rfl, hz, hx⟩
    · cases z with
      | nil => exact absurd (List.cons.inj hz).1 hec
      | cons f z => simp at hz

/-! ### Cuts of texts around a value -/

theorem Spells.exists_array (h : Spells d .items c v) : ∃ vs, v = .array vs := by
  cases h <;> exact ⟨_, rfl⟩

theorem Spells.exists_object (h : Spells d .members c v) : ∃ ms, v = .object ms := by
  cases h <;> exact ⟨_, rfl⟩

namespace Cut

def array (C : Cut d .items x y v) : Cut (d + 1) .value ('[' :: x) (y ++ [']']) v :=
  C.wrap C.site ['['] [']'] rfl rfl rfl C.fill_eq fun hu => .array hu

def object (C : Cut d .members x y v) : Cut (d + 1) .value ('{' :: x) (y ++ ['}']) v :=
  C.wrap C.site ['{'] ['}'] rfl rfl rfl C.fill_eq fun hu => .object hu

def slot (hw : Spaces w) (hw' : Spaces w') (C : Cut d .value x y v) :
    Cut d .slot (w ++ x) (y ++ w') v :=
  C.wrap C.site w w' rfl rfl rfl C.fill_eq fun hu => .slot hw hu hw'

def item (C : Cut d .slot x y v) : Cut d .items x y (.array [v]) :=
  C.wrap (.item [] C.site []) [] [] rfl (List.append_nil y).symm rfl
    (congrArg (fun u => Json.array [u]) C.fill_eq) fun hu => by simpa [Site.fill] using Spells.item hu

def firstItem (C : Cut d .slot x y v) (ht : Spells d .items t (.array vs)) :
    Cut d .items x (y ++ ',' :: t) (.array (v :: vs)) :=
  C.wrap (.item [] C.site vs) [] (',' :: t) rfl rfl rfl
    (congrArg (fun u => Json.array (u :: vs)) C.fill_eq) fun hu => .items hu ht

def laterItem (h : Spells d .slot c v) (C : Cut d .items x y (.array vs)) :
    Cut d .items (c ++ ',' :: x) y (.array (v :: vs)) :=
  C.wrap (C.site.consItem v) (c ++ [',']) [] (by simp) (List.append_nil y).symm
    (Site.name_consItem v _) (Site.fill_consItem C.fill_eq.symm v).symm fun hu => by
      obtain ⟨us, hus⟩ := hu.exists_array
      rw [Site.fill_consItem hus]
      rw [hus] at hu
      simpa using Spells.items h hu

section Member

variable {raw name : List Char} (hw : Spaces w) (hn : Literal raw name) (hw' : Spaces w')

/-- The colon of the first member. -/
def atLabel {rest : List Char} (hc : Spells d .slot c v) (hy : y = c ++ rest)
    (h : ∀ {t u}, Spells d .slot t u → Spells d .members (label w raw w' ++ ':' :: (t ++ rest))
      (.object ((String.ofList name, u) :: ms))) :
    Cut d .members (label w raw w') y (.object ((String.ofList name, v) :: ms)) where
  site := .here [] (String.ofList name) ms
  front := w
  raw := raw
  gap := w'
  text := c
  rest := rest
  depth := d
  old := v
  left_eq := rfl
  right_eq := hy
  name := by simpa [Site.name] using hn
  spaces := hw'
  spells := hc
  fill_eq := rfl
  fill hu := by simpa [Site.fill] using h hu

def member (C : Cut d .slot x y v) :
    Cut d .members (label w raw w' ++ ':' :: x) y (.object [(String.ofList name, v)]) :=
  C.wrap (.member [] (String.ofList name) C.site []) (label w raw w' ++ [':']) [] (by simp)
    (List.append_nil y).symm rfl (congrArg (fun u => Json.object [(_, u)]) C.fill_eq) fun hu => by
      simpa [Site.fill] using Spells.member hw hn hw' hu

def firstMember (C : Cut d .slot x y v) (ht : Spells d .members t (.object ms)) :
    Cut d .members (label w raw w' ++ ':' :: x) (y ++ ',' :: t)
      (.object ((String.ofList name, v) :: ms)) :=
  C.wrap (.member [] (String.ofList name) C.site ms) (label w raw w' ++ [':']) (',' :: t) (by simp)
    rfl rfl (congrArg (fun u => Json.object ((_, u) :: ms)) C.fill_eq) fun hu => by
      simpa [Site.fill] using Spells.members hw hn hw' hu ht

def laterMember (h : Spells d .slot c v) (C : Cut d .members x y (.object ms)) :
    Cut d .members (label w raw w' ++ ':' :: (c ++ ',' :: x)) y
      (.object ((String.ofList name, v) :: ms)) :=
  C.wrap (C.site.consMember (String.ofList name, v)) (label w raw w' ++ ':' :: c ++ [',']) []
    (by simp) (List.append_nil y).symm (Site.name_consMember _ _)
    (Site.fill_consMember C.fill_eq.symm _).symm fun hu => by
      obtain ⟨us, hus⟩ := hu.exists_object
      rw [Site.fill_consMember hus]
      rw [hus] at hu
      simpa using Spells.members hw hn hw' h hu

end Member

end Cut

/-! ### Every colon of the structure is the colon of a member -/

/-- A colon behind a label is that of the label, or it stands in what follows. -/
theorem colon_behind_label {raw name : List Char} (hw : Spaces w) (hn : Literal raw name)
    (hw' : Spaces w') (h : label w raw w' ++ ':' :: c = x ++ ':' :: y)
    (hx : run outside x = outside) : x = label w raw w' ∧ y = c ∨
      ∃ x', x = label w raw w' ++ ':' :: x' ∧ c = x' ++ ':' :: y ∧ run outside x' = outside := by
  rcases append_eq_append_cons h with ⟨z, hz, -⟩ | ⟨z, rfl, hz⟩
  · exact (label_no_colon hw hn hw' hz hx).elim
  cases z with
  | nil => exact .inl ⟨List.append_nil _, (List.cons.inj hz).2.symm⟩
  | cons e z =>
    obtain ⟨rfl, hz'⟩ := List.cons.inj hz
    rw [run_append, run_label hw hn hw', run_cons_structure (by decide)] at hx
    exact .inr ⟨z, rfl, hz', hx⟩

/-- A colon in a list stands in the first part or behind the comma. -/
theorem colon_in_list (hc : Spells d k c v) (h : c ++ ',' :: t = x ++ ':' :: y)
    (hx : run outside x = outside) : (∃ y', y = y' ++ ',' :: t ∧ c = x ++ ':' :: y') ∨
      ∃ x', x = c ++ ',' :: x' ∧ t = x' ++ ':' :: y ∧ run outside x' = outside := by
  rcases append_eq_append_cons h with ⟨z, hz, rfl⟩ | ⟨z, rfl, hz⟩
  · exact .inl ⟨z, rfl, hz⟩
  cases z with
  | nil => exact absurd (List.cons.inj hz).1 (by decide)
  | cons e z =>
    obtain ⟨rfl, hz'⟩ := List.cons.inj hz
    rw [run_append, hc.run_eq, run_cons_structure (by decide)] at hx
    exact .inr ⟨z, rfl, hz', hx⟩

/-- **Every colon of the structure is the colon of a member.** -/
theorem Spells.cut (h : Spells d k c v) (hc : c = x ++ ':' :: y) (hx : run outside x = outside) :
    Nonempty (Cut d k x y v) := by
  induction h generalizing x y with
  | atom ha => exact (ha.no_colon hc).elim
  | string hn => exact (hn.no_colon hc hx).elim
  | noItems hw | noMembers hw =>
    obtain ⟨x', y', -, -, hw', -⟩ := colon_between (by decide) (by decide) (by decide) hc hx
    exact (hw.no_colon hw').elim
  | array _ ih =>
    obtain ⟨x', y', rfl, rfl, hc', hx'⟩ := colon_between (by decide) (by decide) (by decide) hc hx
    obtain ⟨C⟩ := ih hc' hx'
    exact ⟨C.array⟩
  | object _ ih =>
    obtain ⟨x', y', rfl, rfl, hc', hx'⟩ := colon_between (by decide) (by decide) (by decide) hc hx
    obtain ⟨C⟩ := ih hc' hx'
    exact ⟨C.object⟩
  | slot hw _ hw' ih =>
    -- the colon stands in the value, not in the blanks around it
    rw [List.append_assoc] at hc
    rcases append_eq_append_cons hc with ⟨z, hz, -⟩ | ⟨x, rfl, hz⟩
    · exact (hw.no_colon hz).elim
    rw [run_append, hw.run_eq] at hx
    rcases append_eq_append_cons hz with ⟨y, hy, rfl⟩ | ⟨z, -, hz⟩
    · obtain ⟨C⟩ := ih hy hx
      exact ⟨C.slot hw hw'⟩
    · exact (hw'.no_colon hz).elim
  | item _ ih =>
    obtain ⟨C⟩ := ih hc hx
    exact ⟨C.item⟩
  | items h ht ih iht =>
    rcases colon_in_list h hc hx with ⟨y', rfl, hc'⟩ | ⟨x', rfl, ht', hx'⟩
    · obtain ⟨C⟩ := ih hc' hx
      exact ⟨C.firstItem ht⟩
    · obtain ⟨C⟩ := iht ht' hx'
      exact ⟨C.laterItem h⟩
  | member hw hn hw' h ih =>
    rcases colon_behind_label hw hn hw' hc hx with ⟨rfl, rfl⟩ | ⟨x', rfl, hc', hx'⟩
    · exact ⟨.atLabel hn hw' h (List.append_nil _).symm fun hu => by
        simpa using Spells.member hw hn hw' hu⟩
    · obtain ⟨C⟩ := ih hc' hx'
      exact ⟨C.member hw hn hw'⟩
  | members hw hn hw' h ht ih iht =>
    rw [List.append_assoc, List.cons_append] at hc
    rcases colon_behind_label hw hn hw' hc hx with ⟨rfl, rfl⟩ | ⟨x', rfl, hc', hx'⟩
    · exact ⟨.atLabel hn hw' h rfl fun hu => by simpa using Spells.members hw hn hw' hu ht⟩
    rcases colon_in_list h hc' hx' with ⟨y', rfl, hv⟩ | ⟨x'', rfl, ht', hx''⟩
    · obtain ⟨C⟩ := ih hv hx'
      exact ⟨C.firstMember hw hn hw' ht⟩
    · obtain ⟨C⟩ := iht ht' hx''
      exact ⟨C.laterMember hw hn hw' h⟩

end Upkeep.Json
