import Mathlib.Data.List.Induction
import Mathlib.Data.Set.Card
import Upkeep.Dependency
import Upkeep.Proofs.Text.Cuts

/-!
# The entries of a set of dependencies

A set of dependencies is filled entry by entry, and the last entry of a name is the one that counts, also if it
withdraws the version of an earlier one. Entries are read off texts, and a text that cannot be read adds none.

* `mem_list`, `pairwise_list`, `size_eq`: **the list of what is provided**, in the order of the names.
* `versions_ofList`: **the last entry of a name counts**.
* `Reads`, `parse_eq_ok_iff`: **the texts that can be read**, and what they say.
* `ofTexts_provides`: **what is provided after a sequence of texts**.
-/

namespace Upkeep

open Text

variable {ds : Dependencies} {d : Dependency} {l l' : List Dependency} {name version : String}

namespace Dependencies

/-! ### What is provided -/

theorem mem_list : d ∈ ds.list ↔ ds.get? d.name = some d := by
  rw [get?_eq_some_iff, list, List.mem_filter, List.mem_map]
  constructor
  · rintro ⟨⟨⟨name, version⟩, hmem, rfl⟩, hprovided⟩
    exact ⟨Std.ExtTreeMap.mem_toList_iff_getElem?_eq_some.1 hmem, rfl, hprovided⟩
  · rintro ⟨hversion, -, hprovided⟩
    exact ⟨⟨(d.name, d.version), Std.ExtTreeMap.mem_toList_iff_getElem?_eq_some.2 hversion, rfl⟩, hprovided⟩

/-- The provided dependencies ascend by their names. -/
theorem pairwise_list (ds : Dependencies) : ds.list.Pairwise (·.name < ·.name) := by
  have hkeys : ds.versions.toList.Pairwise fun a b => compare a.1 b.1 = .lt := Std.ExtTreeMap.ordered_keys_toList
  rw [list, List.pairwise_filter, List.pairwise_map]
  exact hkeys.imp fun hlt _ _ => compareOfLessAndEq_eq_lt.1 hlt

/-- As many dependencies are provided as there are names for which one is. -/
theorem size_eq (ds : Dependencies) : ds.size = {name | (ds.get? name).isSome = true}.ncard := by
  have hnodup : (ds.list.map (·.name)).Nodup := by
    refine List.pairwise_map.2 (ds.pairwise_list.imp fun hlt heq => ?_)
    rw [heq] at hlt
    exact String.lt_irrefl _ hlt
  have hnames : {name | (ds.get? name).isSome = true} = (ds.list.map (·.name)).toFinset := by
    ext name
    rw [Set.mem_ofPred_eq, List.coe_toFinset, Set.mem_ofPred_eq, List.mem_map, Option.isSome_iff_exists]
    constructor
    · rintro ⟨d, hd⟩
      obtain ⟨-, rfl, -⟩ := get?_eq_some_iff.1 hd
      exact ⟨d, mem_list.2 hd, rfl⟩
    · rintro ⟨d, hd, rfl⟩
      exact ⟨d, mem_list.1 hd⟩
  rw [hnames, Set.ncard_coe_finset, List.toFinset_card_of_nodup hnodup, List.length_map, size]

end Dependencies

/-! ### The last of its kind -/

section Last

variable {α β : Type} {p : α → Prop} {xs : List α} {a b : α}

/-- The last entry of a list with a property. -/
def IsLast (p : α → Prop) (xs : List α) (a : α) : Prop :=
  ∃ earlier later, xs = earlier ++ a :: later ∧ p a ∧ ∀ b ∈ later, ¬ p b

theorem isLast_concat : IsLast p (xs ++ [b]) a ↔ (p b ∧ a = b) ∨ (¬ p b ∧ IsLast p xs a) := by
  constructor
  · rintro ⟨earlier, later, hsplit, ha, hlater⟩
    rcases later.eq_nil_or_concat with rfl | ⟨later, c, rfl⟩
    · obtain ⟨rfl, hab⟩ := List.append_inj' hsplit rfl
      obtain rfl : b = a := by simpa using hab
      exact .inl ⟨ha, rfl⟩
    · rw [List.concat_eq_append, ← List.cons_append, ← List.append_assoc] at hsplit
      obtain ⟨rfl, hbc⟩ := List.append_inj' hsplit rfl
      obtain rfl : b = c := by simpa using hbc
      exact .inr ⟨hlater b (by simp), earlier, later, rfl, ha, fun c hc => hlater c (by simp [hc])⟩
  · rintro (⟨hb, rfl⟩ | ⟨hb, earlier, later, rfl, ha, hlater⟩)
    · exact ⟨xs, [], rfl, hb, by simp⟩
    · exact ⟨earlier, later ++ [b], by simp, ha, List.forall_mem_append.2 ⟨hlater, by simpa using hb⟩⟩

/-- Where a property tells the entries apart, the last one with it is the only one. -/
theorem isLast_iff_mem (h : xs.Pairwise fun a b => p a → ¬ p b) : IsLast p xs a ↔ a ∈ xs ∧ p a := by
  constructor
  · rintro ⟨earlier, later, rfl, ha, -⟩
    exact ⟨List.mem_append_right _ List.mem_cons_self, ha⟩
  · rintro ⟨hmem, ha⟩
    obtain ⟨earlier, later, rfl⟩ := List.append_of_mem hmem
    rw [List.pairwise_append, List.pairwise_cons] at h
    exact ⟨earlier, later, rfl, ha, fun b hb => h.2.1.1 b hb ha⟩

/-- The last of what some entries give is what the last of these entries gives. -/
theorem isLast_filterMap {f : β → Option α} {xs : List β} :
    IsLast p (xs.filterMap f) a ↔ ∃ b, IsLast (fun b => ∃ a ∈ f b, p a) xs b ∧ f b = some a := by
  constructor
  · rintro ⟨earlier, later, hsplit, ha, hlater⟩
    obtain ⟨front, rest, rfl, rfl, hrest⟩ := List.filterMap_eq_append_iff.1 hsplit
    obtain ⟨skipped, b, rest, rfl, -, hb, rfl⟩ := List.filterMap_eq_cons_iff.1 hrest
    refine ⟨b, ⟨front ++ skipped, rest, by simp, ⟨a, hb, ha⟩, ?_⟩, hb⟩
    rintro c hc ⟨d, hd, hpd⟩
    exact hlater d (List.mem_filterMap.2 ⟨c, hc, hd⟩) hpd
  · rintro ⟨b, ⟨earlier, later, rfl, ⟨a', ha', hp⟩, hlater⟩, hb⟩
    obtain rfl : a' = a := Option.some.inj (ha'.symm.trans hb)
    refine ⟨earlier.filterMap f, later.filterMap f, by simp [hb], hp, ?_⟩
    intro c hc hpc
    obtain ⟨d, hd, hfd⟩ := List.mem_filterMap.1 hc
    exact hlater d hd ⟨c, hfd, hpc⟩

end Last

namespace Dependencies

/-! ### Which entry counts -/

/-- **The last entry of a name counts.** -/
theorem versions_ofList :
    (ofList l).versions[name]? = some version ↔ IsLast (fun d => d.name = name) l ⟨name, version⟩ := by
  induction l using List.reverseRecOn with
  | nil => simp [ofList, empty, IsLast]
  | append_singleton l d ih =>
    have hinsert : (ofList (l ++ [d])).versions = (ofList l).versions.insert d.name d.version := by
      rw [ofList, List.foldl_append]
      rfl
    rw [hinsert, isLast_concat, ← ih]
    obtain ⟨first, second⟩ := d
    by_cases hname : first = name
    · subst hname
      simp [eq_comm]
    · simp [Std.ExtTreeMap.getElem?_insert, hname]

/-- Entries of different names all count, in whatever order they come. -/
theorem versions_ofList_of_nodup (h : (l.map (·.name)).Nodup) :
    (ofList l).versions[name]? = some version ↔ ⟨name, version⟩ ∈ l := by
  have hapart : l.Pairwise fun d e => d.name = name → ¬ e.name = name := by
    refine (List.pairwise_map.1 h).imp ?_
    rintro d e hne rfl heq
    exact hne heq.symm
  rw [versions_ofList, isLast_iff_mem hapart, and_iff_left rfl]

theorem ofList_eq_of_perm (h : (l.map (·.name)).Nodup) (hperm : l.Perm l') : ofList l' = ofList l := by
  have hversions : (ofList l').versions = (ofList l).versions := by
    refine Std.ExtTreeMap.ext_getElem? fun name => Option.ext fun version => ?_
    rw [versions_ofList_of_nodup h, versions_ofList_of_nodup ((hperm.map _).nodup_iff.1 h), hperm.mem_iff]
  cases hl : ofList l
  cases hl' : ofList l'
  rw [hl, hl'] at hversions
  exact congrArg _ hversions

end Dependencies

/-! ### The texts of entries -/

namespace Dependency

/-- What a text says: before its first equals sign stands the name, behind it the version, both with blanks around
them, and the name is not blank. -/
def Reads (text : String) (d : Dependency) : Prop :=
  ∃ name version, text.toList = name ++ '=' :: version ∧ '=' ∉ name ∧ d.name ≠ "" ∧
    Trims name d.name.toList ∧ Trims version d.version.toList

variable {text : String}

/-- A text is read as what it says. -/
theorem parse_eq_ok_iff : parse text = .ok d ↔ Reads text d := by
  unfold parse
  constructor
  · intro h
    split at h
    · cases h
    · rename_i name version hcut
      split_ifs at h with hname
      cases h
      obtain ⟨hsplit, hfree⟩ := cut_eq_some.1 hcut
      refine ⟨name, version, hsplit, hfree, ?_, ?_, ?_⟩
      · rw [ne_eq, ← String.toList_eq_nil_iff, String.toList_ofList]
        exact hname
      · rw [String.toList_ofList, ← trim_eq_iff]
      · rw [String.toList_ofList, ← trim_eq_iff]
  · rintro ⟨name, version, hsplit, hfree, hne, hname, hversion⟩
    rw [ne_eq, ← String.toList_eq_nil_iff] at hne
    rw [cut_eq_some.2 ⟨hsplit, hfree⟩]
    simp only [trim_eq_iff.2 hname, trim_eq_iff.2 hversion, if_neg hne, String.ofList_toList]

/-- A text can be read if something other than blanks stands before its first equals sign. -/
theorem exists_parse_iff : (∃ d, parse text = .ok d) ↔
    ∃ name version, text.toList = name ++ '=' :: version ∧ '=' ∉ name ∧ ∃ c ∈ name, isBlank c = false := by
  have hseen (name : List Char) : (∃ c ∈ name, isBlank c = false) ↔ trim name ≠ [] := by
    rw [ne_eq, trim_eq_nil]
    push Not
    simp only [Bool.not_eq_true]
  simp only [parse_eq_ok_iff, hseen]
  constructor
  · rintro ⟨d, name, version, hsplit, hfree, hne, hname, -⟩
    refine ⟨name, version, hsplit, hfree, ?_⟩
    rw [trim_eq_iff.2 hname, ne_eq, String.toList_eq_nil_iff]
    exact hne
  · rintro ⟨name, version, hsplit, hfree, hname⟩
    refine ⟨⟨String.ofList (trim name), String.ofList (trim version)⟩, name, version, hsplit, hfree, ?_, ?_, ?_⟩
    · rw [ne_eq, ← String.toList_eq_nil_iff, String.toList_ofList]
      exact hname
    · rw [String.toList_ofList]
      exact trims_trim name
    · rw [String.toList_ofList]
      exact trims_trim version

/-- A version that was read is provided if it is not empty. -/
theorem Reads.isProvided_iff (h : Reads text d) : d.isProvided = true ↔ d.version ≠ "" := by
  obtain ⟨name, version, -, -, -, -, hversion⟩ := h
  obtain ⟨before, after, -, -, -, hfirst, -⟩ := hversion
  rw [ne_eq, ← String.toList_eq_nil_iff, isProvided]
  cases hd : d.version.toList with
  | nil => simp
  | cons c rest =>
    rw [hd] at hfirst
    simp [hfirst c rfl]

end Dependency

namespace Dependencies

variable {texts : List String}

/-- A text adds the entry that it says; a text that cannot be read adds none. -/
def take (ds : Dependencies) (text : String) : Dependencies :=
  match Dependency.parse text with
  | .ok d => ds.insert d
  | .error _ => ds

/-- The set that a sequence of texts fills. -/
def ofTexts (texts : List String) : Dependencies := texts.foldl take empty

theorem ofTexts_eq (texts : List String) :
    ofTexts texts = ofList (texts.filterMap fun text => (Dependency.parse text).toOption) := by
  rw [ofTexts, ofList, List.foldl_filterMap]
  congr 1
  funext ds text
  unfold take
  cases Dependency.parse text <;> rfl

theorem toOption_parse {text : String} : (Dependency.parse text).toOption = some d ↔ Dependency.Reads text d := by
  rw [← Dependency.parse_eq_ok_iff]
  cases Dependency.parse text <;> simp [Except.toOption]

/-- No two texts give entries of one name. -/
def Apart (texts : List String) : Prop :=
  texts.Pairwise fun text text' => ∀ d e, Dependency.Reads text d → Dependency.Reads text' e → d.name ≠ e.name

theorem apart_iff :
    Apart texts ↔ ((texts.filterMap fun text => (Dependency.parse text).toOption).map (·.name)).Nodup := by
  rw [List.Nodup, List.pairwise_map, List.pairwise_filterMap]
  simp only [toOption_parse]
  exact ⟨fun h => h.imp fun hne d hd e he => hne d e hd he, fun h => h.imp fun hne d e hd he => hne d hd e he⟩

instance (texts : List String) : Decidable (Apart texts) := decidable_of_iff _ apart_iff.symm

/-- What is provided for a name is what the last text says that gives an entry of this name, if it is a version. -/
theorem get?_ofTexts : (ofTexts texts).get? name = some d ↔ d.name = name ∧ d.version ≠ "" ∧
    ∃ text, IsLast (fun text => ∃ e, Dependency.Reads text e ∧ e.name = name) texts text ∧ Dependency.Reads text d := by
  have hlast : (ofTexts texts).versions[name]? = some d.version ↔
      ∃ text, IsLast (fun text => ∃ e, Dependency.Reads text e ∧ e.name = name) texts text ∧
        Dependency.Reads text ⟨name, d.version⟩ := by
    rw [ofTexts_eq, versions_ofList, isLast_filterMap]
    simp only [Option.mem_def, toOption_parse]
  rw [get?_eq_some_iff, hlast]
  constructor
  · rintro ⟨⟨text, htext, hreads⟩, rfl, hprovided⟩
    exact ⟨rfl, hreads.isProvided_iff.1 hprovided, text, htext, hreads⟩
  · rintro ⟨rfl, hversion, text, htext, hreads⟩
    exact ⟨⟨text, htext, hreads⟩, rfl, hreads.isProvided_iff.2 hversion⟩

/-- **What is provided after a sequence of texts.** A text is taken if something other than blanks stands before its
first equals sign. For each name the last text that was taken counts, and it provides nothing if its version is blank.
The list holds just what is provided, in the order of the names, and the size counts it. Texts of different names
can come in any order. -/
theorem ofTexts_provides (texts : List String) :
    (∀ text, (∃ d, Dependency.parse text = .ok d) ↔
      ∃ name version, text.toList = name ++ '=' :: version ∧ '=' ∉ name ∧ ∃ c ∈ name, isBlank c = false) ∧
    (∀ name d, (ofTexts texts).get? name = some d ↔ d.name = name ∧ d.version ≠ "" ∧
      ∃ text, IsLast (fun text => ∃ e, Dependency.Reads text e ∧ e.name = name) texts text ∧
        Dependency.Reads text d) ∧
    (∀ d, d ∈ (ofTexts texts).list ↔ (ofTexts texts).get? d.name = some d) ∧
    (ofTexts texts).list.Pairwise (·.name < ·.name) ∧
    (ofTexts texts).size = {name | ((ofTexts texts).get? name).isSome = true}.ncard ∧
    ∀ texts', texts.Perm texts' → Apart texts → ofTexts texts' = ofTexts texts := by
  refine ⟨fun text => Dependency.exists_parse_iff, fun name d => get?_ofTexts, fun d => mem_list, pairwise_list _,
    size_eq _, fun texts' hperm hapart => ?_⟩
  rw [ofTexts_eq, ofTexts_eq]
  exact ofList_eq_of_perm (apart_iff.1 hapart) (hperm.filterMap _)

/-- A version with an equals sign, a version that is withdrawn, and two texts that are not taken. -/
theorem ofTexts_provides_swapped :
    let texts := [" sdk = 8.0.1=x ", "=9.0.0", "runtime=", "noise"]
    let swapped := ["noise", "runtime=", "=9.0.0", " sdk = 8.0.1=x "]
    texts.Perm swapped ∧ Apart texts ∧ ofTexts swapped = ofTexts texts := by
  intro texts swapped
  have hperm : texts.Perm swapped := by decide
  have hapart : Apart texts := by decide
  obtain ⟨-, -, -, -, -, hset⟩ := ofTexts_provides texts
  exact ⟨hperm, hapart, hset swapped hperm hapart⟩

end Dependencies

end Upkeep
