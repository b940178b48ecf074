import Upkeep.Manifest
import Upkeep.Proofs.Json.Literal

/-!
# The section of the variables

What a manifest says of its variables: it has a section of strings, the last one of that name, and a
variable has the value of the last member of its name there.

* `ofJson_eq_ok`: **which variables a document holds.**
-/

namespace Upkeep

open Json

section Fold

variable {β : Type}

/-- Of a repeated name the last value counts. -/
theorem foldl_insert_getElem? (l : List (String × β)) (m : Std.ExtTreeMap String β) (k : String) :
    (l.foldl (fun m (name, v) => m.insert name v) m)[k]? =
      ((l.reverse.find? (·.1 = k)).map (·.2)).or m[k]? := by
  induction l generalizing m with
  | nil => simp
  | cons p l ih =>
    obtain ⟨name, v⟩ := p
    rw [List.foldl_cons, ih, List.reverse_cons, List.find?_append]
    cases h : l.reverse.find? (·.1 = k) with
    | some q => simp
    | none =>
      by_cases hk : name = k
      · simp [hk]
      · simp [hk, Std.ExtTreeMap.getElem?_insert]

end Fold

namespace Json

variable {k : String} {v : Json}

theorem mapOf_getElem? (ms : List (String × Json)) (k : String) :
    (mapOf ms)[k]? = (object ms).member? k := by
  rw [mapOf, foldl_insert_getElem?]
  simp [member?]

theorem member?_append (l r : List (String × Json)) (k : String) :
    (object (l ++ r)).member? k = ((object r).member? k).or ((object l).member? k) := by
  simp only [member?, List.reverse_append, List.find?_append]
  cases r.reverse.find? (·.1 = k) <;> simp

theorem member?_cons (name : String) (v : Json) (ms : List (String × Json)) (k : String) :
    (object ((name, v) :: ms)).member? k =
      ((object ms).member? k).or (if name = k then some v else none) := by
  rw [← List.singleton_append, member?_append]
  by_cases h : name = k <;> simp [member?, h]

end Json

namespace Variables

variable {source name : String} {vars : Variables} {document : Json} {pairs : List (String × String)}

theorem ofList_getElem? (pairs : List (String × String)) (k : String) :
    (ofList pairs)[k]? = (pairs.reverse.find? (·.1 = k)).map (·.2) := by
  rw [ofList, foldl_insert_getElem?]
  simp

theorem mem_ofList (h : name ∈ ofList pairs) : ∃ p ∈ pairs, p.1 = name := by
  obtain ⟨s, hs⟩ := Option.isSome_iff_exists.1 (Std.ExtTreeMap.mem_iff_isSome_getElem?.1 h)
  rw [ofList_getElem?, Option.map_eq_some_iff] at hs
  obtain ⟨p, hp, -⟩ := hs
  exact ⟨p, by simpa using List.mem_of_find?_eq_some hp, by simpa using List.find?_some hp⟩

theorem mem_ofList_iff : name ∈ ofList pairs ↔ ∃ p ∈ pairs, p.1 = name := by
  refine ⟨mem_ofList, fun ⟨p, hp, hname⟩ => Std.ExtTreeMap.mem_iff_isSome_getElem?.2 ?_⟩
  rw [ofList_getElem?, Option.isSome_map, List.find?_isSome]
  exact ⟨p, by simpa using hp, by simpa using hname⟩

theorem ofMembers_eq_ok {ms : List (String × Json)} :
    ofMembers source ms = .ok pairs ↔ ms = pairs.map fun (name, s) => (name, .string s) := by
  induction ms generalizing pairs with
  | nil => cases pairs <;> simp [ofMembers]
  | cons m ms ih =>
    obtain ⟨name, v⟩ := m
    cases v with
    | string s =>
      simp only [ofMembers, string?, Except.map_eq_ok, ih]
      constructor
      · rintro ⟨ps, rfl, rfl⟩; rfl
      · intro h
        cases pairs with
        | nil => simp at h
        | cons p ps =>
          obtain ⟨n, t⟩ := p
          simp only [List.map_cons, List.cons.injEq, Prod.mk.injEq, string.injEq] at h
          obtain ⟨⟨rfl, rfl⟩, rfl⟩ := h
          exact ⟨ps, rfl, rfl⟩
    | null | bool | number | array | object =>
      simp only [ofMembers, string?]
      cases pairs <;> simp

/-- In a list without repeated names a variable has the value it is listed with. -/
theorem ofList_getElem?_eq_some {k s : String}
    (hd : pairs.Pairwise (·.1 ≠ ·.1)) : (ofList pairs)[k]? = some s ↔ (k, s) ∈ pairs := by
  rw [ofList_getElem?, Option.map_eq_some_iff]
  constructor
  · rintro ⟨⟨k', s'⟩, hf, rfl⟩
    obtain rfl : k' = k := by simpa using List.find?_some hf
    simpa using List.mem_of_find?_eq_some hf
  · intro hmem
    obtain ⟨l, r, rfl⟩ := List.append_of_mem hmem
    have hr : r.reverse.find? (·.1 = k) = none := by
      rw [List.find?_eq_none]
      intro q hq
      have := (List.pairwise_append.1 hd).2.1
      simpa using ((List.pairwise_cons.1 this).1 q (by simpa using hq)).symm
    exact ⟨(k, s), by simp [hr], rfl⟩

theorem pairwise_toList (vars : Variables) : vars.toList.Pairwise (·.1 ≠ ·.1) :=
  Std.ExtTreeMap.distinct_keys_toList.imp fun h => by simpa using h

theorem mem_of_mem_toList {p : String × String} (h : p ∈ vars.toList) : p.1 ∈ vars := by
  have := Std.ExtTreeMap.mem_toList_iff_getElem?_eq_some.1 h
  exact Std.ExtTreeMap.mem_iff_isSome_getElem?.2 (by simp [this])

theorem ofList_toList (vars : Variables) : ofList vars.toList = vars := by
  refine Std.ExtTreeMap.ext_getElem? fun k => Option.ext fun s => ?_
  rw [ofList_getElem?_eq_some (pairwise_toList vars), Std.ExtTreeMap.mem_toList_iff_getElem?_eq_some]

/-- Setting a variable to the value that it has changes nothing. -/
theorem insert_same {value : String} (h : vars[name]? = some value) :
    vars.insert name value = vars := by
  refine Std.ExtTreeMap.ext_getElem? fun k => ?_
  rw [Std.ExtTreeMap.getElem?_insert]
  by_cases hk : name = k
  · simp [← hk, h]
  · simp [hk]

/-- The variables of a section by name. -/
theorem ofMembers_map_eq_ok {t : Std.ExtTreeMap String Json} :
    (ofMembers source t.toList).map ofList = .ok vars ↔
      ∀ k : String, t[k]? = vars[k]?.map Json.string := by
  rw [Except.map_eq_ok]
  constructor
  · rintro ⟨pairs, hp, rfl⟩ k
    have hp := ofMembers_eq_ok.1 hp
    have hd : pairs.Pairwise (·.1 ≠ ·.1) := by
      have := Std.ExtTreeMap.distinct_keys_toList (t := t)
      rw [hp, List.pairwise_map] at this
      exact this.imp fun h => by simpa using h
    refine Option.ext fun v => ?_
    rw [← Std.ExtTreeMap.mem_toList_iff_getElem?_eq_some, hp, List.mem_map]
    simp only [Option.map_eq_some_iff, ofList_getElem?_eq_some hd, Prod.exists, Prod.mk.injEq]
    constructor
    · rintro ⟨_, s, h, rfl, rfl⟩; exact ⟨s, h, rfl⟩
    · rintro ⟨s, h, rfl⟩; exact ⟨k, s, h, rfl, rfl⟩
  · intro h
    refine ⟨vars.toList, ofMembers_eq_ok.2 ?_, ofList_toList vars⟩
    have ht : t = vars.map fun _ s => .string s :=
      Std.ExtTreeMap.ext_getElem? fun k => by rw [h, Std.ExtTreeMap.getElem?_map]
    rw [ht, Std.ExtTreeMap.toList_map]

/-- **Which variables a document holds.** -/
theorem ofJson_eq_ok : ofJson source document = .ok vars ↔
    ∃ ms, document.member? sectionName = some (.object ms) ∧
      ∀ k, (Json.object ms).member? k = vars[k]?.map Json.string := by
  unfold ofJson
  cases hd : document.member? sectionName with
  | none => simp
  | some v =>
    cases v with
    | object ms => simp [toMap, ofMembers_map_eq_ok, mapOf_getElem?]
    | null | bool | number | string | array => simp [toMap]

end Variables

end Upkeep
