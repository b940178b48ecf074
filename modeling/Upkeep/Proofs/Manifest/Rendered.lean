import Upkeep.Proofs.Manifest.Regular
import Upkeep.Proofs.Patch.Skip

/-!
# Rendered manifests

The text that is written for variables is searched from the front: the search passes over every member
of another name, whatever its value is, and stops at the member of the name. So an update of a rendered
manifest is the update of one variable, rendered again.

A name must stand for itself between its quotes. It must also differ from a colon and a space, which is
what stands between the name and the value of every member.

* `skips_member`: the search passes over a member of another name.
* `toList_insert`: another value for a variable stands where the old one stood.
* `find?_render`: **the place of a variable** in a rendered text.
* `update_rendered`: **one update**, as an update of the variables.
* `rendered_run`: **every run of updates** commutes with rendering.
-/

namespace Upkeep

open Json Patch Text

namespace Patch

variable {name t : List Char}

/-! ### Members -/

/-- A member on a line of its own. -/
def memberText (m : String × String) : List Char :=
  newLine 2 ++ '"' :: (m.1.toList ++ '"' :: ':' :: ' ' :: '"' :: (encode m.2.toList ++ ['"']))

theorem isBody_colon : IsBody [':', ' '] := fun r => by
  rw [List.cons_append, literal?_plain (by decide) (by decide), List.cons_append,
    literal?_plain (by decide) (by decide), List.nil_append, literal?_quote]
  rfl

theorem quote_notMem_newLine (n : Nat) : '"' ∉ newLine n := fun h =>
  absurd (spaces_newLine n _ h) (by decide)

/-- The search passes over a member of another name. -/
theorem skips_member (hn : Plain name) (hcolon : name ≠ [':', ' ']) {m : String × String}
    (hm : Plain m.1.toList) (hne : m.1.toList ≠ name) (ht : NoColon t)
    (hclose : at? name ('"' :: t) = none) : Skips name (memberText m) t := by
  have hname : at? name ('"' :: (m.1.toList ++ '"' :: ([':', ' '] ++
      '"' :: (encode m.2.toList ++ '"' :: t)))) = none := by
    by_contra h
    exact hne (name_of_at? hn hm.isBody h).1
  have hbetween : at? name ('"' :: ([':', ' '] ++ '"' :: (encode m.2.toList ++ '"' :: t))) = none := by
    by_contra h
    exact hcolon (name_of_at? hn isBody_colon h).1.symm
  have hend : Skips name ['"'] t := .cons hclose (skips_of_no_quote (by simp))
  have hvalue : Skips name ('"' :: (encode m.2.toList ++ ['"'])) t := by
    refine .cons ?_ (.append (skips_value hn ht _) hend)
    rw [List.append_assoc]
    exact at?_value hn ht _
  have hgap : Skips name ('"' :: ([':', ' '] ++ '"' :: (encode m.2.toList ++ ['"']))) t := by
    refine .cons ?_ (.append (skips_of_no_quote (by simp)) hvalue)
    simpa using hbetween
  refine .append (skips_of_no_quote (quote_notMem_newLine 2)) (.cons ?_
    (.append (skips_of_no_quote hm.quote_notMem) hgap))
  simpa using hname

theorem find?_member (m : String × String) (t : List Char) :
    find? m.1.toList (memberText m ++ t) =
      some ⟨newLine 2 ++ lead m.1.toList [] [' '], encode m.2.toList, '"' :: t⟩ := by
  obtain ⟨s, hs⟩ : ∃ s, s = m.1.toList ++ '"' :: ':' :: ' ' :: '"' :: (encode m.2.toList ++ '"' :: t) :=
    ⟨_, rfl⟩
  have hat : at? m.1.toList ('"' :: s) =
      some ⟨lead m.1.toList [] [' '], encode m.2.toList, '"' :: t⟩ :=
    at?_eq_some.2 ⟨[], [' '], by simp [Blank], by simp [Blank, isBlank, inRanges, blankRanges], rfl,
      by simp [hs, lead, quoted], isBody_encode _ t⟩
  have hskip : Skips m.1.toList (newLine 2) ('"' :: s) := skips_of_no_quote (quote_notMem_newLine 2)
  have htext : memberText m ++ t = newLine 2 ++ '"' :: s := by simp [hs, memberText]
  rw [htext, hskip, find?, hat]
  rfl

/-- Members in front of others, and a comma behind each. -/
def membersBefore (ms : List (String × String)) : List Char := ms.flatMap (memberText · ++ [','])

/-- Members behind others, and a comma before each. -/
def membersAfter (ms : List (String × String)) : List Char := ms.flatMap (',' :: memberText ·)

theorem prettyMembers_cons (m : String × String) (r : List (String × String))
    (hm : Plain m.1.toList) (hr : ∀ q ∈ r, Plain q.1.toList) :
    prettyMembers 2 ((m :: r).map fun (name, s) => (name, .string s)) =
      memberText m ++ membersAfter r := by
  induction r generalizing m with
  | nil =>
    simp [prettyMembers, prettyChars, membersAfter, memberText, quote, hm.encode_eq]
  | cons q r ih =>
    have hrest := ih q (hr q (by simp)) fun q' hq' => hr q' (by simp [hq'])
    rw [List.map_cons] at hrest ⊢
    rw [List.map_cons, prettyMembers, hrest]
    simp [prettyChars, membersAfter, memberText, quote, hm.encode_eq]

/-- The members around one of them. -/
theorem prettyMembers_append (l : List (String × String)) (m : String × String)
    (r : List (String × String)) (h : ∀ q ∈ l ++ m :: r, Plain q.1.toList) :
    prettyMembers 2 ((l ++ m :: r).map fun (name, s) => (name, .string s)) =
      membersBefore l ++ memberText m ++ membersAfter r := by
  have hplain : ∀ q ∈ m :: r, Plain q.1.toList := fun q hq => h q (by simp [List.mem_cons.1 hq])
  have hm := prettyMembers_cons m r (hplain m (by simp)) fun q hq => hplain q (by simp [hq])
  induction l with
  | nil => simpa [membersBefore] using hm
  | cons q l ih =>
    have hrest := ih fun q' hq' => h q' (by simp at hq' ⊢; simp [hq'])
    have hq := (h q (by simp)).encode_eq
    -- what follows a member is not empty, so a comma stands between them
    cases l <;>
    · simp only [List.cons_append, List.nil_append, List.map_cons] at hrest ⊢
      rw [prettyMembers, hrest]
      simp [prettyChars, membersBefore, memberText, quote, hq]

/-- The search passes over members of other names in front of another member. -/
theorem skips_membersBefore (hn : Plain name) (hcolon : name ≠ [':', ' ']) (m : String × String)
    (t : List Char) {l : List (String × String)} (hl : ∀ q ∈ l, Plain q.1.toList ∧ q.1.toList ≠ name) :
    Skips name (membersBefore l) (memberText m ++ t) := by
  induction l with
  | nil => exact skips_of_no_quote (by simp [membersBefore])
  | cons q l ih =>
    obtain ⟨hq, hne⟩ := hl q (by simp)
    obtain ⟨s, hs⟩ : ∃ s, membersBefore l ++ (memberText m ++ t) = '\n' :: s := by
      cases l <;> exact ⟨_, rfl⟩
    have hclose : at? name ('"' :: ([','] ++ '\n' :: s)) = none := at?_of_line hn (by simp)
    have htail : NoColon ([] ++ ',' :: '\n' :: s) :=
      noColon_of_blank (by simp [Blank]) (by decide) (by decide) _
    have hq' : Skips name (memberText q) ([','] ++ (membersBefore l ++ (memberText m ++ t))) := by
      rw [hs]
      exact skips_member hn hcolon hq hne htail hclose
    have hcomma : Skips name [','] (membersBefore l ++ (memberText m ++ t)) :=
      skips_of_no_quote (by simp)
    exact (hq'.append hcomma).append (ih fun q' hq' => hl q' (by simp [hq']))

/-- The text in front of the members. -/
def head : List Char :=
  '\x7b' :: newLine 1 ++ '"' :: (Variables.sectionName.toList ++ '"' :: [':', ' ', '\x7b'])

/-- The text behind the members. -/
def foot : List Char := newLine 1 ++ '\x7d' :: newLine 0 ++ ['\x7d', '\n']

theorem plain_sectionName : Plain Variables.sectionName.toList := by
  simp [Plain, Variables.sectionName]

theorem skips_head (hn : Plain name) (s : List Char) : Skips name head ('\n' :: s) := by
  have hname : at? name ('"' :: (Variables.sectionName.toList ++
      '"' :: ':' :: ' ' :: '\x7b' :: '\n' :: s)) = none := by
    by_contra h
    obtain ⟨-, b₁, b₂, r, hb₁, hb₂, heq⟩ := name_of_at? hn plain_sectionName.isBody h
    -- an object stands behind the colon, and no string
    have hcolon : b₁ = [] := by
      cases b₁ with
      | nil => rfl
      | cons c b₁ =>
        have := hb₁ c (by simp)
        rw [← (List.cons.inj heq).1] at this
        exact absurd this (by decide)
    subst hcolon
    have hdrop := congrArg (List.dropWhile isBlank) (List.cons.inj heq).2
    rw [(dropWhile_blank hb₂ (by decide)).1] at hdrop
    exact absurd (List.cons.inj hdrop).1 (by decide)
  have hclose : at? name ('"' :: ([':', ' ', '\x7b'] ++ '\n' :: s)) = none :=
    at?_of_line hn (by simp)
  have hobject : Skips name ('"' :: [':', ' ', '\x7b']) ('\n' :: s) :=
    .cons hclose (skips_of_no_quote (by simp))
  have hlabel : Skips name ('"' :: (Variables.sectionName.toList ++ '"' :: [':', ' ', '\x7b']))
      ('\n' :: s) := by
    refine .cons ?_ (.append (skips_of_no_quote plain_sectionName.quote_notMem) hobject)
    rw [List.append_assoc]
    exact hname
  refine .cons (at?_of_ne_quote (by decide)) (.append ?_ hlabel)
  exact skips_of_no_quote (quote_notMem_newLine 1)

end Patch

/-! ### Variables in the order of their names -/

namespace Variables

variable {vars : Variables} {name old : String} {l r ms pairs : List (String × String)}

/-- A list in the order of the names is the list of its variables. -/
theorem toList_ofList (h : ms.Pairwise fun p q => compare p.1 q.1 = .lt) :
    (ofList ms).toList = ms := by
  have hne {p q : String × String} (hlt : compare p.1 q.1 = .lt) : p.1 ≠ q.1 := by
    intro heq
    simp [heq] at hlt
  have hnodup {l : List (String × String)} (hl : l.Pairwise fun p q => compare p.1 q.1 = .lt) :
      l.Nodup :=
    List.Pairwise.imp (fun hlt heq => hne hlt (congrArg Prod.fst heq)) hl
  have hsorted := Std.ExtTreeMap.ordered_keys_toList (t := ofList ms)
  refine List.Perm.eq_of_pairwise (fun p q _ _ hpq hqp => ?_) hsorted h
    ((List.perm_ext_iff_of_nodup (hnodup hsorted) (hnodup h)).2 fun p => ?_)
  · exact absurd hqp (Std.OrientedCmp.not_lt_of_lt hpq)
  · rw [Std.ExtTreeMap.mem_toList_iff_getElem?_eq_some, ofList_getElem?_eq_some (h.imp hne)]

/-- Another value for a variable stands where the old one stood. -/
theorem toList_insert (h : vars.toList = l ++ (name, old) :: r) (value : String) :
    (vars.insert name value).toList = l ++ (name, value) :: r := by
  have hd := h ▸ pairwise_toList vars
  have hsorted := h ▸ Std.ExtTreeMap.ordered_keys_toList (t := vars)
  have hvars : vars.insert name value = ofList (l ++ (name, value) :: r) := by
    rw [Manifest.ofList_replace hd, ← h, ofList_toList]
  rw [hvars]
  refine toList_ofList ?_
  simpa [List.pairwise_append] using hsorted

/-- An update of variables; a name that is not defined is refused. -/
def assign (vars : Variables) (name value : String) : Variables :=
  if name ∈ vars then vars.insert name value else vars

/-- The variables after a run of updates. -/
def assigns (vars : Variables) (us : List (String × String)) : Variables :=
  us.foldl (fun vars (name, value) => vars.assign name value) vars

theorem mem_assign {k value : String} : k ∈ vars.assign name value ↔ k ∈ vars := by
  unfold assign
  split_ifs with h
  · rw [Std.ExtTreeMap.mem_insert]
    constructor
    · rintro (heq | hk)
      · obtain rfl : name = k := by simpa using heq
        exact h
      · exact hk
    · exact .inr
  · rfl

theorem mem_assigns {k : String} (us : List (String × String)) : k ∈ vars.assigns us ↔ k ∈ vars := by
  induction us generalizing vars with
  | nil => rfl
  | cons u us ih => exact ih.trans mem_assign

end Variables

theorem Json.encode_injective {a b : String} (h : encode a.toList = encode b.toList) : a = b := by
  have hread (s : String) : stringLiteral (encode s.toList ++ ['"']) = .ok (s, []) :=
    stringLiteral_eq_ok.2 ⟨_, literal_encode _, rfl⟩
  have hb := hread b
  rw [← h, hread a] at hb
  exact (Prod.mk.inj (Except.ok.inj hb)).1

/-! ### Updates of a rendered manifest -/

namespace Manifest

variable {vars : Variables} {path : Option String} {name old : String} {l r : List (String × String)}

theorem render_eq (h : vars.toList = l ++ (name, old) :: r)
    (hplain : ∀ k ∈ vars, Plain k.toList) :
    (render vars).toList =
      head ++ (membersBefore l ++ (memberText (name, old) ++ (membersAfter r ++ foot))) := by
  have hp : ∀ q ∈ l ++ (name, old) :: r, Plain q.1.toList := fun q hq =>
    hplain q.1 (Variables.mem_of_mem_toList (h ▸ hq))
  have hmembers := prettyMembers_append l (name, old) r hp
  obtain ⟨m, ms, hms⟩ : ∃ m ms, (l ++ (name, old) :: r) = m :: ms := by
    cases l <;> exact ⟨_, _, rfl⟩
  have hsection : prettyChars 1 (.object (vars.toList.map fun (name, s) => (name, .string s))) =
      '\x7b' :: (membersBefore l ++ memberText (name, old) ++ membersAfter r) ++ newLine 1 ++ ['\x7d'] := by
    rw [← hmembers, h, hms]
    rfl
  have hdocument : prettyChars 0 (document vars) = '\x7b' ::
      (newLine 1 ++ quote Variables.sectionName ++ ':' :: ' ' :: prettyChars 1
        (.object (vars.toList.map fun (name, s) => (name, .string s)))) ++ newLine 0 ++ ['\x7d'] := rfl
  rw [render, Json.pretty, String.toList_append, String.toList_ofList, hdocument, hsection, quote,
    plain_sectionName.encode_eq]
  simp [head, foot]

/-- **The place of a variable** in a rendered text. -/
theorem find?_render (h : vars.toList = l ++ (name, old) :: r)
    (hplain : ∀ k ∈ vars, Plain k.toList) (hcolon : name.toList ≠ [':', ' ']) :
    find? name.toList (render vars).toList =
      some ⟨head ++ (membersBefore l ++ (newLine 2 ++ lead name.toList [] [' '])), encode old.toList,
        '"' :: (membersAfter r ++ foot)⟩ := by
  have hmem : ∀ q ∈ l ++ (name, old) :: r, Plain q.1.toList := fun q hq =>
    hplain q.1 (Variables.mem_of_mem_toList (h ▸ hq))
  have hname : Plain name.toList := hmem (name, old) (by simp)
  have hl : ∀ q ∈ l, Plain q.1.toList ∧ q.1.toList ≠ name.toList := by
    intro q hq
    have hd := h ▸ Variables.pairwise_toList vars
    have hne := (List.pairwise_append.1 hd).2.2 q hq (name, old) (by simp)
    exact ⟨hmem q (by simp [hq]), fun heq => hne (String.toList_inj.1 heq)⟩
  have hfind := find?_member (name, old) (membersAfter r ++ foot)
  have hbefore := skips_membersBefore hname hcolon (name, old) (membersAfter r ++ foot) hl
  obtain ⟨s, hs⟩ : ∃ s, membersBefore l ++ (memberText (name, old) ++ (membersAfter r ++ foot)) =
      '\n' :: s := by
    cases l <;> exact ⟨_, rfl⟩
  have hhead := skips_head hname s
  rw [render_eq h hplain, hs, hhead, ← hs, hbefore, hfind]
  rfl

/-- The manifest whose text is written for its variables. -/
def rendered (path : Option String) (vars : Variables) : Manifest := ⟨path, render vars, vars⟩

/-- Names that stand for themselves between quotes. -/
def Unescaped (vars : Variables) : Prop := ∀ k ∈ vars, Plain k.toList

theorem unescaped_ofList {pairs : List (String × String)}
    (h : ∀ q ∈ pairs, ∀ c ∈ q.1.toList, c ≠ '"' ∧ c ≠ '\\' ∧ 32 ≤ c.toNat) : Unescaped (.ofList pairs) :=
  fun k hk => by
    obtain ⟨q, hq, rfl⟩ := Variables.mem_ofList hk
    exact h q hq

/-- Names that stand for themselves between quotes, and that differ from what stands between the name
and the value of a member. -/
def PlainNames (vars : Variables) : Prop := ∀ k ∈ vars, Plain k.toList ∧ k ≠ ": "

theorem PlainNames.assigns (h : PlainNames vars) (us : List (String × String)) :
    PlainNames (vars.assigns us) := fun k hk => h k ((Variables.mem_assigns us).1 hk)

theorem PlainNames.unescaped (h : PlainNames vars) : Unescaped vars := fun k hk => (h k hk).1

/-- A variable's place in a rendered text, and what the text is with another value there. -/
theorem exists_place_render (h : Unescaped vars) (hcolon : name ≠ ": ") (hname : vars[name]? = some old) :
    ∃ p, find? name.toList (render vars).toList = some p ∧ p.body = encode old.toList ∧
      ∀ value, p.filled value = render (vars.insert name value) := by
  obtain ⟨l, r, htl⟩ := List.append_of_mem (Std.ExtTreeMap.mem_toList_iff_getElem?_eq_some.2 hname)
  have hmem : name ∈ vars := Std.ExtTreeMap.mem_iff_isSome_getElem?.2 (by simp [hname])
  have hcolon' : name.toList ≠ [':', ' '] := fun heq => hcolon (String.toList_inj.1 heq)
  refine ⟨_, find?_render htl h hcolon', rfl, fun value => ?_⟩
  have hplain : ∀ k ∈ vars.insert name value, Plain k.toList := by
    intro k hk
    have hassign : vars.assign name value = vars.insert name value := if_pos hmem
    exact h k (Variables.mem_assign.1 (hassign ▸ hk))
  rw [Place.filled, ← String.toList_inj, String.toList_ofList,
    render_eq (Variables.toList_insert htl value) hplain]
  simp [memberText, lead, quoted]

/-- **One update** of a variable in a rendered manifest. -/
theorem update_rendered_of_mem (h : Unescaped vars) (hcolon : name ≠ ": ") (hname : name ∈ vars)
    (value : String) : (rendered path vars).update name value =
      .ok (if vars[name]? = some value then none else some (rendered path (vars.insert name value))) := by
  obtain ⟨old, hold⟩ := Option.isSome_iff_exists.1 (Std.ExtTreeMap.mem_iff_isSome_getElem?.1 hname)
  obtain ⟨p, hf, hbody, hfilled⟩ := exists_place_render h hcolon hold
  rw [update_eq_ok]
  refine ⟨hname, p, hf, ?_⟩
  -- the texts agree exactly if the values do
  have hsame : p.body = encode value.toList ↔ vars[name]? = some value := by
    rw [hbody, hold, Option.some.injEq]
    exact ⟨encode_injective, fun heq => heq ▸ rfl⟩
  rw [hfilled, if_congr hsame rfl rfl]
  rfl

/-- **One update** of a rendered manifest, as an update of its variables. -/
theorem update_rendered (h : PlainNames vars) (name value : String) :
    (rendered path vars).update name value =
      if name ∈ vars then
        .ok (if vars[name]? = some value then none
          else some (rendered path (vars.insert name value)))
      else .error (.missingVariable name) := by
  by_cases hname : name ∈ vars
  · rw [if_pos hname, update_rendered_of_mem h.unescaped (h name hname).2 hname]
  · rw [if_neg hname]
    exact if_neg hname

theorem attempt_rendered (h : PlainNames vars) (name value : String) :
    (rendered path vars).attempt name value = rendered path (vars.assign name value) := by
  unfold attempt Variables.assign
  rw [update_rendered h]
  split_ifs with hname hsame
  · rw [Variables.insert_same hsame]
  · rfl
  · rfl

theorem updates_rendered (h : PlainNames vars) (us : List (String × String)) :
    (rendered path vars).updates us = rendered path (vars.assigns us) := by
  induction us generalizing vars with
  | nil => rfl
  | cons u us ih =>
    show ((rendered path vars).attempt u.1 u.2).updates us = _
    rw [attempt_rendered h]
    exact ih (h.assigns [u])

/-- **Every run of updates commutes with rendering.** The text that is written for pairs is read as the
pairs, the last value of a repeated name. After any run of updates the manifest is the one that is
written for the updated variables, and the next update fails if its name is not one of the pairs, and
otherwise changes the manifest exactly if the value is another one. -/
theorem rendered_run (path : Option String) (pairs : List (String × String))
    (hnames : ∀ q ∈ pairs, (∀ c ∈ q.1.toList, c ≠ '"' ∧ c ≠ '\\' ∧ 32 ≤ c.toNat) ∧ q.1 ≠ ": ")
    (us : List (String × String)) (name value : String) :
    ofText path (render (.ofList pairs)) = .ok (rendered path (.ofList pairs)) ∧
    (∀ k, (Variables.ofList pairs)[k]? = (pairs.reverse.find? (·.1 = k)).map (·.2)) ∧
    ∃ vars, vars = (Variables.ofList pairs).assigns us ∧
      (rendered path (.ofList pairs)).updates us = rendered path vars ∧
      (∀ k, k ∈ vars ↔ ∃ q ∈ pairs, q.1 = k) ∧
      (rendered path vars).update name value =
        if name ∈ vars then
          .ok (if vars[name]? = some value then none
            else some (rendered path (vars.insert name value)))
        else .error (.missingVariable name) := by
  have hplain : PlainNames (.ofList pairs) := by
    intro k hk
    obtain ⟨q, hq, rfl⟩ := Variables.mem_ofList hk
    exact hnames q hq
  refine ⟨ofText_render path _, Variables.ofList_getElem? pairs, _, rfl, updates_rendered hplain us,
    fun k => ?_, update_rendered (hplain.assigns us) name value⟩
  rw [Variables.mem_assigns, Variables.mem_ofList_iff]

/-- Pairs of which one has a value that reads like the other one. -/
def lookalike : List (String × String) := [("a", "\"a|b\": \"0\""), ("a|b", "1")]

theorem rendered_run_lookalike :
    (∀ q ∈ lookalike, (∀ c ∈ q.1.toList, c ≠ '"' ∧ c ≠ '\\' ∧ 32 ≤ c.toNat) ∧ q.1 ≠ ": ") ∧
    (rendered none (.ofList lookalike)).update "a|b" "2" =
      .ok (some (rendered none ((Variables.ofList lookalike).insert "a|b" "2"))) := by
  have hnames : ∀ q ∈ lookalike,
      (∀ c ∈ q.1.toList, c ≠ '"' ∧ c ≠ '\\' ∧ 32 ≤ c.toNat) ∧ q.1 ≠ ": " := by
    simp [lookalike]
  refine ⟨hnames, ?_⟩
  obtain ⟨-, hvalue, vars, rfl, -, hkeys, hupdate⟩ :=
    rendered_run none lookalike hnames [] "a|b" "2"
  have hmem : "a|b" ∈ (Variables.ofList lookalike).assigns [] := (hkeys _).2 (by simp [lookalike])
  have hold : (Variables.ofList lookalike)["a|b"]? = some "1" := by rw [hvalue]; simp [lookalike]
  rw [if_pos hmem] at hupdate
  rw [show Variables.ofList lookalike = (Variables.ofList lookalike).assigns [] from rfl, hupdate,
    if_neg]
  simp [Variables.assigns, hold]

end Manifest

end Upkeep
