import Upkeep.Proofs.Manifest.Match
import Upkeep.Proofs.Manifest.Section

/-!
# What an update does to a document

An update edits a text, and what a manifest holds is read from a document. The name of a variable has a
bar, as a rule, and a bar stands in no structure; so the place of such a name is the value of a member,
and the document changes in that value alone.

* `Site.Holds`: the member that a variable is read from.
* `ofJson_fill`: **a member is read as one variable or as none.**
* `member_of_find?`: the place of an ordinary name is the value of a member.
* `update_one_member`: **an update changes one member of the document**, and it stays a manifest.
-/

namespace Upkeep

open Json Mode Patch

variable {name source : String} {vars : Variables} {S : Site} {prev : String} {v : Json}

namespace Json.Site

/-- The member is the one that a variable is read from: the last of its name in the last section of
the variables. -/
def Holds (name : String) (S : Site) : Prop :=
  ∃ l l' r' r, S = member l Variables.sectionName (here l' name r') r ∧
    (object r).member? Variables.sectionName = none ∧ (object r').member? name = none

theorem Holds.unique {k k' : String} {S : Site} (h : S.Holds k) (h' : S.Holds k') : k = k' := by
  obtain ⟨l, l', r', r, rfl, -⟩ := h
  obtain ⟨_, _, _, _, heq, -⟩ := h'
  obtain ⟨-, -, heq, -⟩ := Site.member.inj heq
  exact (Site.here.inj heq).2.1

/-- A tree with a member is no string. -/
theorem fill_ne_string (S : Site) (v : Json) (s : String) : S.fill v ≠ .string s := by
  cases S <;> simp [fill]

end Json.Site

theorem member?_insert (l r : List (String × Json)) (name k : String) (v : Json) :
    (object (l ++ (name, v) :: r)).member? k =
      (((object r).member? k).or (if name = k then some v else none)).or ((object l).member? k) := by
  rw [member?_append, member?_cons]

/-- A member that another one of its name follows is not read. -/
theorem member?_insert_of_shadowed {l r : List (String × Json)} {name k : String} {v v' : Json}
    (h : name = k → (object r).member? name ≠ none) :
    (object (l ++ (name, v) :: r)).member? k = (object (l ++ (name, v') :: r)).member? k := by
  rw [member?_insert, member?_insert]
  by_cases hk : name = k
  · obtain ⟨u, hu⟩ := Option.ne_none_iff_exists'.1 (h hk)
    rw [← hk, hu]
    rfl
  · rw [if_neg hk, if_neg hk]

/-- The members of a section hold variables with these values. -/
def Sections (ms : List (String × Json)) (vars : Variables) : Prop :=
  ∀ k, (object ms).member? k = vars[k]?.map Json.string

/-- Another string for a member of the section is the value of a variable, or it is not read. -/
theorem sections_fill {ms : List (String × Json)} (hfill : S.fill (.string prev) = .object ms)
    (hvars : Sections ms vars) :
    (∃ l k r, S = .here l k r ∧ (object r).member? k = none ∧ ∀ value : String,
      ∃ ms', S.fill (.string value) = .object ms' ∧ Sections ms' (vars.insert k value)) ∨
    (∀ l k r, S = .here l k r → (object r).member? k ≠ none) ∧ ∀ value : String,
      ∃ ms', S.fill (.string value) = .object ms' ∧ Sections ms' vars := by
  cases S with
  | item l S r => simp [Site.fill] at hfill
  | here l k r =>
    obtain rfl := Json.object.inj hfill
    by_cases hr : (object r).member? k = none
    · refine .inl ⟨l, k, r, rfl, hr, fun value => ⟨_, rfl, fun j => ?_⟩⟩
      rw [Std.ExtTreeMap.getElem?_insert, member?_insert]
      have hj := hvars j
      rw [member?_insert] at hj
      by_cases hkj : k = j
      · subst hkj
        simp [hr]
      · simpa [hkj] using hj
    · refine .inr ⟨?_, fun value => ⟨_, rfl, fun j => ?_⟩⟩
      · rintro _ _ _ heq
        obtain ⟨-, rfl, rfl⟩ := Site.here.inj heq
        exact hr
      · rw [← hvars j]
        exact member?_insert_of_shadowed fun _ => hr
  | member l k S r =>
    obtain rfl := Json.object.inj hfill
    refine .inr ⟨by simp, fun value => ⟨_, rfl, fun j => ?_⟩⟩
    rw [← hvars j]
    -- the member holds no string, so it is not read
    refine member?_insert_of_shadowed fun _ hr => ?_
    have hk := hvars k
    rw [member?_insert, hr, if_pos rfl] at hk
    obtain ⟨s, -, hs⟩ := Option.map_eq_some_iff.1 hk.symm
    exact S.fill_ne_string _ _ hs.symm

/-- **A member is read as one variable or as none.** So another string for it gives this variable a
value, or changes nothing. -/
theorem ofJson_fill (h : Variables.ofJson source (S.fill (.string prev)) = .ok vars) :
    (∃ k, S.Holds k ∧ ∀ value : String,
      Variables.ofJson source (S.fill (.string value)) = .ok (vars.insert k value)) ∨
    (∀ k, ¬ S.Holds k) ∧ ∀ value : String,
      Variables.ofJson source (S.fill (.string value)) = .ok vars := by
  obtain ⟨ms, hms, hvars⟩ := Variables.ofJson_eq_ok.1 h
  -- a member that is not the section is not read
  have hout (value : String)
      (hsame : (S.fill (.string value)).member? Variables.sectionName =
        (S.fill (.string prev)).member? Variables.sectionName) :
      Variables.ofJson source (S.fill (.string value)) = .ok vars :=
    Variables.ofJson_eq_ok.2 ⟨ms, hsame.trans hms, hvars⟩
  cases S with
  | item l S r => simp [Site.fill, member?] at hms
  | here l k r =>
    refine .inr ⟨by simp [Site.Holds], fun value => hout value ?_⟩
    refine member?_insert_of_shadowed fun hk hr => ?_
    rw [Site.fill, member?_insert, ← hk, hr, if_pos rfl] at hms
    simp at hms
  | member l k S r =>
    by_cases hr : k = Variables.sectionName ∧ (object r).member? Variables.sectionName = none
    · obtain ⟨rfl, hr⟩ := hr
      have hread (u : Json) : (object (l ++ (Variables.sectionName, u) :: r)).member?
          Variables.sectionName = some u := by simp [member?_insert, hr]
      have hfill : S.fill (.string prev) = .object ms := Option.some.inj ((hread _).symm.trans hms)
      rcases sections_fill hfill hvars with ⟨l', k, r', rfl, hr', hnew⟩ | ⟨hne, hnew⟩
      · refine .inl ⟨k, ⟨l, l', r', r, rfl, hr, hr'⟩, fun value => ?_⟩
        obtain ⟨ms', hms', hvars'⟩ := hnew value
        exact Variables.ofJson_eq_ok.2 ⟨ms', by rw [← hms']; exact hread _, hvars'⟩
      · refine .inr ⟨?_, fun value => ?_⟩
        · rintro k ⟨_, l', r', _, heq, -, hr'⟩
          obtain ⟨-, -, rfl, -⟩ := Site.member.inj heq
          exact hne _ _ _ rfl hr'
        · obtain ⟨ms', hms', hvars'⟩ := hnew value
          exact Variables.ofJson_eq_ok.2 ⟨ms', by rw [← hms']; exact hread _, hvars'⟩
    · refine .inr ⟨?_, fun value => hout value ?_⟩
      · rintro k' ⟨_, _, _, _, heq, hr', -⟩
        obtain ⟨-, rfl, -, rfl⟩ := Site.member.inj heq
        exact hr ⟨rfl, hr'⟩
      · refine member?_insert_of_shadowed fun hk hnone => hr ⟨hk, ?_⟩
        rw [← hk]
        exact hnone

/-! ### The name of a member -/

namespace Json

/-- A quote in a literal is an escaped one, and what follows it is a literal. -/
theorem Literal.split_quote {raw text x y : List Char} (h : Literal raw text)
    (hr : raw = x ++ '"' :: y) : ∃ t t', text = t ++ '"' :: t' ∧ Literal y t' := by
  induction h generalizing x with
  | nil => simp at hr
  | @plain c raw text hq _ _ _ ih =>
    cases x with
    | nil => exact absurd (List.cons.inj hr).1 hq
    | cons b x =>
      obtain ⟨t, t', rfl, ht'⟩ := ih (List.cons.inj hr).2
      exact ⟨c :: t, t', rfl, ht'⟩
  | @escape e raw text u he h ih =>
    rcases append_eq_append_cons hr with ⟨z, hz, rfl⟩ | ⟨z, -, hz⟩
    · -- the quote is the one of the escape
      cases x with
      | nil => exact absurd (List.cons.inj hz).1 (by decide)
      | cons b x =>
        have he' : e = x ++ '"' :: z := (List.cons.inj hz).2
        obtain ⟨rfl, rfl⟩ := he.of_quote_mem (by rw [he']; simp)
        have hlen := congrArg List.length he'
        simp only [List.length_cons, List.length_append, List.length_nil] at hlen
        obtain rfl : z = [] := List.eq_nil_of_length_eq_zero (by omega)
        exact ⟨[], text, rfl, h⟩
    · obtain ⟨t, t', rfl, ht'⟩ := ih hz
      exact ⟨u :: t, t', rfl, ht'⟩

/-- A literal without escapes stands for itself. -/
theorem Literal.eq_of_plain {raw text : List Char} (h : Literal raw text) (hs : '\\' ∉ raw) :
    text = raw := by
  induction h with
  | nil => rfl
  | plain _ _ _ _ ih => rw [ih fun hmem => hs (by simp [hmem])]
  | escape => simp at hs

/-- A quoted text at the end of a name: it is the name, or a quote of the name stands before it. -/
theorem Literal.name_of_quoted {front raw text pre name : List Char} (h : Literal raw text)
    (heq : pre ++ '"' :: name = front ++ '"' :: raw) (hq : '"' ∉ name) (hs : '\\' ∉ name) :
    text = name ∨ ∃ t, text = t ++ '"' :: name := by
  rcases append_eq_append_cons heq with ⟨z, -, hz⟩ | ⟨z, -, hz⟩
  · obtain ⟨t, t', rfl, ht'⟩ := h.split_quote hz
    exact .inr ⟨t, by rw [ht'.eq_of_plain hs]⟩
  · cases z with
    | nil =>
      obtain rfl := (List.cons.inj hz).2
      exact .inl (h.eq_of_plain hs)
    | cons e z => exact absurd (by rw [(List.cons.inj hz).2]; simp) hq

end Json

/-! ### Updates -/

namespace Manifest

variable {m : Manifest} {path : Option String} {text value : String} {r : Option Manifest}

theorem ofText_eq_ok : ofText path text = .ok m ↔ ∃ document, Json.parse text = .ok document ∧
    Variables.ofJson (path.getD unnamed) document = .ok m.vars ∧ m.path = path ∧ m.text = text := by
  unfold ofText Json.read
  cases hp : Json.parse text with
  | error e => simp [Except.mapError]
  | ok document =>
    obtain ⟨p, t, vars⟩ := m
    simp only [Except.mapError, Except.map_eq_ok, mk.injEq, Except.ok.injEq]
    constructor
    · rintro ⟨vars, h, rfl, rfl, rfl⟩; exact ⟨_, rfl, h, rfl, rfl⟩
    · rintro ⟨_, rfl, h, rfl, rfl⟩; exact ⟨_, h, rfl, rfl, rfl⟩

theorem update_eq_ok : m.update name value = .ok r ↔ name ∈ m.vars ∧
    ∃ p, find? name.toList m.text.toList = some p ∧
      r = if p.body = Json.encode value.toList then none
        else some { m with text := p.filled value, vars := m.vars.insert name value } := by
  unfold update
  split_ifs with hname
  · cases hf : find? name.toList m.text.toList with
    | none => simp [apply_of_not_found hf, Except.map]
    | some p =>
      rw [apply_of_find? hf]
      split_ifs with hb <;> simp [Except.map, hname, hb, eq_comm]
  · simp [hname]

/-- The text after an update, whether it changed or not. -/
theorem text_of_update {p : Place} (hf : find? name.toList m.text.toList = some p)
    (h : m.update name value = .ok r) : (r.getD m).text = p.filled value := by
  obtain ⟨-, q, hq, hr⟩ := update_eq_ok.1 h
  obtain rfl := Option.some.inj (hf.symm.trans hq)
  rw [hr]
  split_ifs with hb
  · rw [Option.getD_none, text_eq_of_find? hf, Place.text, Place.filled, hb]
  · rfl

theorem path_of_update {m' : Manifest} (h : m.update name value = .ok (some m')) : m'.path = m.path := by
  obtain ⟨-, p, -, hm⟩ := update_eq_ok.1 h
  split_ifs at hm
  rw [Option.some.inj hm]

theorem vars_of_update {m' : Manifest} (h : m.update name value = .ok (some m')) :
    m'.vars = m.vars.insert name value := by
  obtain ⟨-, p, -, hm⟩ := update_eq_ok.1 h
  split_ifs at hm
  rw [Option.some.inj hm]

/-- A place of a name whose last quote ends in the structure is the value of a member. -/
theorem site_of_find? {p : Place} {document : Json} {pre b₁ b₂ : List Char}
    (hd : Json.parse text = .ok document) (hf : find? name.toList text.toList = some p)
    (hb₁ : Blank b₁) (hb₂ : Blank b₂) (hp : p.before = pre ++ lead name.toList b₁ b₂)
    (hl : literal? (p.body ++ p.after) = some (p.body, p.after))
    (hm : run outside (pre ++ quoted name.toList) = outside) :
    ∃ (S : Site) (front raw : List Char) (prev : String),
      pre ++ '"' :: name.toList = front ++ '"' :: raw ∧ Literal raw S.name.toList ∧
      document = S.fill (.string prev) ∧
      ∀ value : String, Json.parse (p.filled value) = .ok (S.fill (.string value)) := by
  have hv := parseChars_eq_ok.1 hd
  rw [← text_of_find? hf, Place.text, List.append_assoc, hp] at hv
  obtain ⟨S, front, raw, prev, hname, hraw, hfill, hnew⟩ := member_of_lead hb₁ hb₂ hl hv hm
  refine ⟨S, front, raw, prev, hname, hraw, hfill, fun value => ?_⟩
  rw [Json.parse, Place.filled, String.toList_ofList, List.append_assoc, hp]
  exact parseChars_eq_ok.2 (hnew value)

/-- The name of a place stands in no broken structure. -/
theorem quoted_ne_broken {p : Place} {document : Json} {pre b₁ b₂ : List Char}
    (hd : Json.parse text = .ok document) (hf : find? name.toList text.toList = some p)
    (hp : p.before = pre ++ lead name.toList b₁ b₂) :
    run outside (pre ++ quoted name.toList) ≠ broken := by
  have hrun := (parseChars_eq_ok.1 hd).run_eq
  rw [← text_of_find? hf, Place.text, List.append_assoc, hp, append_lead] at hrun
  exact ne_broken_of_run hrun

/-- **The place of an ordinary name** is the value of a member. The name of the member is this name, or it
ends in this name behind a quote. -/
theorem member_of_find? {p : Place} {document : Json} (hd : Json.parse text = .ok document)
    (hn : Ordinary name.toList) (hf : find? name.toList text.toList = some p) :
    ∃ (S : Site) (prev : String), document = S.fill (.string prev) ∧
      (∀ value : String, Json.parse (p.filled value) = .ok (S.fill (.string value))) ∧
      (S.name = name ∨ ∃ t, S.name = t ++ "\"" ++ name) := by
  obtain ⟨pre, b₁, b₂, hb₁, hb₂, hp, hl⟩ := before_of_find? hf
  have hmode := hn.run_quoted (quoted_ne_broken hd hf hp)
  obtain ⟨S, front, raw, prev, hname, hraw, hfill, hnew⟩ := site_of_find? hd hf hb₁ hb₂ hp hl hmode
  refine ⟨S, prev, hfill, hnew, ?_⟩
  rcases hraw.name_of_quoted hname hn.quote hn.slash with heq | ⟨t, heq⟩
  · exact .inl (String.toList_inj.1 heq)
  · exact .inr ⟨String.ofList t, String.toList_inj.1 (by simp [heq])⟩

/-- **An update changes one member of the document**, and it stays a manifest. The name of the member
is the name of the variable, or it ends in this name behind a quote. -/
theorem update_one_member (hm : ofText path text = .ok m) (hbar : '|' ∈ name.toList)
    (hquote : '"' ∉ name.toList) (hslash : '\\' ∉ name.toList) (h : m.update name value = .ok r) :
    ∃ (S : Site) (prev : String),
      Json.parse text = .ok (S.fill (.string prev)) ∧
      Json.parse (r.getD m).text = .ok (S.fill (.string value)) ∧
      (S.name = name ∨ ∃ t, S.name = t ++ "\"" ++ name) ∧
      ∃ m', ofText path (r.getD m).text = .ok m' := by
  obtain ⟨document, hd, hvars, rfl, rfl⟩ := ofText_eq_ok.1 hm
  obtain ⟨-, p, hf, -⟩ := update_eq_ok.1 h
  obtain ⟨S, prev, rfl, hnew, hkey⟩ := member_of_find? hd (ordinary_of_bar hbar hquote hslash) hf
  rw [text_of_update hf h]
  refine ⟨S, prev, hd, hnew value, hkey, ?_⟩
  rcases ofJson_fill hvars with ⟨k, -, hread⟩ | ⟨-, hread⟩
  · exact ⟨⟨m.path, p.filled value, _⟩, ofText_eq_ok.2 ⟨_, hnew value, hread value, rfl, rfl⟩⟩
  · exact ⟨⟨m.path, p.filled value, _⟩, ofText_eq_ok.2 ⟨_, hnew value, hread value, rfl, rfl⟩⟩

/-- A text with a member of the name of a variable in front of the section of the variables. -/
def twice : String :=
  "\x7b\"other\": \x7b\"a|b\": \"x\"\x7d, \"variables\": \x7b\"a|b\": \"y\"\x7d\x7d"

/-- The manifest of this text. -/
def twiceRead : Manifest := ⟨none, twice, .ofList [("a|b", "y")]⟩

/-- The text with another value for the first member. -/
def twiceWritten : String :=
  "\x7b\"other\": \x7b\"a|b\": \"z\"\x7d, \"variables\": \x7b\"a|b\": \"y\"\x7d\x7d"

theorem parse_twice : Json.parse twice = .ok (.object [("other", .object [("a|b", .string "x")]),
    ("variables", .object [("a|b", .string "y")])]) := by
  simp [twice, Json.parse, parseChars, Json.value, members, skipSpace, stringLiteral, stringBody,
    Except.map, isSpace, maxDepth]

theorem ofText_twice : ofText none twice = .ok twiceRead := by
  have hvars : Variables.ofJson unnamed (.object [("other", .object [("a|b", .string "x")]),
      ("variables", .object [("a|b", .string "y")])]) = .ok (.ofList [("a|b", "y")]) := by
    refine Variables.ofJson_eq_ok.2
      ⟨[("a|b", .string "y")], by simp [member?, Variables.sectionName], fun k => ?_⟩
    rw [Variables.ofList_getElem?]
    by_cases hk : "a|b" = k <;> simp [member?, hk]
  rw [ofText_eq_ok]
  exact ⟨_, parse_twice, hvars, rfl, rfl⟩

theorem find?_twice : ∃ p, find? "a|b".toList twice.toList = some p ∧ p.body = ['x'] ∧
    p.filled "z" = twiceWritten := by
  simp [twice, twiceWritten, find?, at?, opening?, Text.after?, literal?.eq_def, Text.isBlank,
    Text.inRanges, Text.blankRanges, Place.filled, encode, encodeChar]

theorem mem_twice : "a|b" ∈ twiceRead.vars := by
  show "a|b" ∈ Variables.ofList [("a|b", "y")]
  simp [Variables.ofList]

theorem update_twice : twiceRead.update "a|b" "z" =
    .ok (some ⟨none, twiceWritten, twiceRead.vars.insert "a|b" "z"⟩) := by
  obtain ⟨p, hf, hb, hfill⟩ := find?_twice
  refine update_eq_ok.2 ⟨mem_twice, p, hf, ?_⟩
  rw [hfill, hb, if_neg (by simp [encode, encodeChar])]
  rfl

theorem update_one_member_twice : ofText none twice = .ok twiceRead ∧
    twiceRead.update "a|b" "z" =
      .ok (some ⟨none, twiceWritten, twiceRead.vars.insert "a|b" "z"⟩) ∧
    ∃ (S : Site) (prev : String),
      Json.parse twice = .ok (S.fill (.string prev)) ∧
      Json.parse twiceWritten = .ok (S.fill (.string "z")) ∧
      (S.name = "a|b" ∨ ∃ t, S.name = t ++ "\"" ++ "a|b") ∧
      ∃ m', ofText none twiceWritten = .ok m' := by
  refine ⟨ofText_twice, update_twice, ?_⟩
  have hbar : '|' ∈ "a|b".toList ∧ '"' ∉ "a|b".toList ∧ '\\' ∉ "a|b".toList := by simp
  have h := update_one_member ofText_twice hbar.1 hbar.2.1 hbar.2.2 update_twice
  rwa [Option.getD_some] at h

end Manifest
end Upkeep
