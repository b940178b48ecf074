import Mathlib.Order.Bounds.Basic
import Upkeep.Dependency.Assets
import Upkeep.Proofs.Dependency.Entries
import Upkeep.Proofs.Version.Highest

/-!
# What the assets of a build provide

A product is provided if one of its assets has a version with a numeric triple, and then with the version of the
first asset of which the triple is the greatest. The version hangs on the order of the assets, its triple does not.

* `Carries`, `Dates`: the products of an asset, and the triple that it gives for one.
* `product?_eq_some_iff`: an asset has one product at most.
* `versions_ofAssets`, `get?_ofAssets`: **what the assets provide for a product**.
* `triple?_ofAssets`: the triple that they provide is the greatest one.
* `ofAssets_provides`: **what the assets of a build provide**, in whatever order, and with more of them.
-/

namespace Upkeep

open Text Version

variable {a : PublishedAsset} {assets : List PublishedAsset} {product v : String} {t : Triple} {d : Dependency}

namespace PublishedAsset

/-- An asset carries the version of a product if it has the known name of one, up to the case of ASCII letters. -/
def Carries (product : String) (a : PublishedAsset) : Prop :=
  ∃ name, (name, product) ∈ products ∧ lowerAscii name.toList = lowerAscii a.name.toList

/-- The triple that an asset gives for a product. -/
def Dates (product : String) (a : PublishedAsset) (t : Triple) : Prop := a.Carries product ∧ Numbered a.version t

/-- An asset has one product at most, since the known names differ in more than the case of their letters. -/
theorem product?_eq_some_iff : a.product? = some product ↔ a.Carries product := by
  have hsame (name : String) : sameIgnoringCase name.toList a.name.toList = true ↔
      lowerAscii name.toList = lowerAscii a.name.toList := beq_iff_eq
  rw [product?, Option.map_eq_some_iff]
  constructor
  · rintro ⟨⟨name, product⟩, hfound, rfl⟩
    exact ⟨name, List.mem_of_find?_eq_some hfound, (hsame name).1 (by simpa using List.find?_some hfound)⟩
  · rintro ⟨name, hmem, hname⟩
    have hapart : ∀ e ∈ products, ∀ e' ∈ products, lowerAscii e.1.toList = lowerAscii e'.1.toList → e = e' := by
      decide
    have hsome : (products.find? fun entry => sameIgnoringCase entry.1.toList a.name.toList).isSome = true :=
      List.find?_isSome.2 ⟨_, hmem, (hsame name).2 hname⟩
    obtain ⟨entry, hfound⟩ := Option.isSome_iff_exists.1 hsome
    have hentry := (hsame entry.1).1 (by simpa using List.find?_some hfound)
    obtain rfl := hapart _ (List.mem_of_find?_eq_some hfound) _ hmem (hentry.trans hname.symm)
    exact ⟨_, hfound, rfl⟩

theorem Dates.unique {u : Triple} (ht : a.Dates product t) (hu : a.Dates product u) : t = u := ht.2.unique hu.2

theorem mem_versionsOf : v ∈ versionsOf product assets ↔ ∃ a ∈ assets, a.Carries product ∧ a.version = v := by
  rw [versionsOf, List.mem_map]
  simp only [List.mem_filter, decide_eq_true_iff, product?_eq_some_iff, and_assoc]

theorem highest_versionsOf : highest (versionsOf product assets) = some v ↔
    ∃ a t, IsFirstGreatest (Dates product) assets a t ∧ a.version = v := by
  have hdates : (fun (a : PublishedAsset) u => decide (a.product? = some product) = true ∧ Numbered a.version u) =
      Dates product := by
    funext a u
    rw [decide_eq_true_iff, product?_eq_some_iff]
    rfl
  rw [highest_eq_some_iff, exists_comm]
  simp only [versionsOf, isFirstGreatest_map_filter, hdates]

/-- A product has a highest version if an asset gives a triple for it. -/
theorem exists_highest_versionsOf_iff : (∃ v, highest (versionsOf product assets) = some v) ↔
    ∃ a ∈ assets, ∃ t, a.Dates product t := by
  rw [← Option.isSome_iff_exists, isSome_highest_iff]
  constructor
  · rintro ⟨v, hv, t, ht⟩
    obtain ⟨a, ha, hcarries, rfl⟩ := mem_versionsOf.1 hv
    exact ⟨a, ha, t, hcarries, ht⟩
  · rintro ⟨a, ha, t, hcarries, ht⟩
    exact ⟨a.version, mem_versionsOf.2 ⟨a, ha, hcarries, rfl⟩, t, ht⟩

end PublishedAsset

open PublishedAsset

theorem not_isBlank_of_isDigit {c : Char} (h : c.isDigit = true) : isBlank c = false := by
  have hdigit : 48 ≤ c.toNat ∧ c.toNat ≤ 57 := by
    rw [Char.isDigit, Bool.and_eq_true, decide_eq_true_iff, decide_eq_true_iff] at h
    exact h
  have hranges : ∀ range ∈ blankRanges, range.2 < 48 ∨ 57 < range.1 := by decide
  rw [isBlank, inRanges, List.any_eq_false]
  intro range hrange
  have hapart := hranges range hrange
  simp only [Bool.and_eq_true, decide_eq_true_eq]
  omega

/-- A version with a triple is not blank. -/
theorem Version.Numbered.isProvided (h : Numbered v t) (name : String) :
    (⟨name, v⟩ : Dependency).isProvided = true := by
  obtain ⟨c, hc, hdigit⟩ := h.exists_isDigit
  rw [Dependency.isProvided, Bool.not_eq_true', List.all_eq_false]
  exact ⟨c, hc, by simp [not_isBlank_of_isDigit hdigit]⟩

namespace Dependencies

theorem versions_ofAssets : (ofAssets assets).versions[product]? = highest (versionsOf product assets) := by
  have hofAssets : ofAssets assets = ofList (products.filterMap fun entry =>
      (highest (versionsOf entry.2 assets)).map (Dependency.mk entry.2)) := rfl
  have hnodup : ((products.filterMap fun entry =>
      (highest (versionsOf entry.2 assets)).map (Dependency.mk entry.2)).map (·.name)).Nodup := by
    have hproducts : products.Pairwise (·.2 ≠ ·.2) := by decide
    rw [List.Nodup, List.pairwise_map, List.pairwise_filterMap]
    refine hproducts.imp fun hne d hd e he => ?_
    obtain ⟨_, -, rfl⟩ := Option.map_eq_some_iff.1 hd
    obtain ⟨_, -, rfl⟩ := Option.map_eq_some_iff.1 he
    exact hne
  ext v
  rw [hofAssets, versions_ofList_of_nodup hnodup, List.mem_filterMap]
  constructor
  · rintro ⟨entry, hmem, h⟩
    obtain ⟨v, hv, h⟩ := Option.map_eq_some_iff.1 h
    cases h
    exact hv
  · intro hv
    obtain ⟨a, t, hgreatest, -⟩ := highest_versionsOf.1 hv
    obtain ⟨name, hname, -⟩ := hgreatest.mem.2.1
    exact ⟨(name, product), hname, Option.map_eq_some_iff.2 ⟨v, hv, rfl⟩⟩

/-- **What the assets provide for a product** is the version of the first asset of which the triple is the greatest. -/
theorem get?_ofAssets : (ofAssets assets).get? product = some d ↔
    d.name = product ∧ ∃ a t, IsFirstGreatest (Dates product) assets a t ∧ a.version = d.version := by
  rw [get?_eq_some_iff, versions_ofAssets, highest_versionsOf]
  constructor
  · rintro ⟨hgreatest, hname, -⟩
    exact ⟨hname, hgreatest⟩
  · rintro ⟨hname, a, t, hgreatest, hversion⟩
    have hprovided := hgreatest.mem.2.2.isProvided d.name
    rw [hversion] at hprovided
    exact ⟨⟨a, t, hgreatest, hversion⟩, hname, hprovided⟩

/-- The assets provide a product if one of them gives a triple for it. -/
theorem isSome_get?_ofAssets :
    ((ofAssets assets).get? product).isSome = true ↔ ∃ a ∈ assets, ∃ t, a.Dates product t := by
  rw [← exists_highest_versionsOf_iff, Option.isSome_iff_exists]
  constructor
  · rintro ⟨d, hd⟩
    obtain ⟨-, a, t, hgreatest, hversion⟩ := get?_ofAssets.1 hd
    exact ⟨d.version, highest_versionsOf.2 ⟨a, t, hgreatest, hversion⟩⟩
  · rintro ⟨v, hv⟩
    exact ⟨⟨product, v⟩, get?_ofAssets.2 ⟨rfl, highest_versionsOf.1 hv⟩⟩

/-- The numeric triple of the version that is provided for a product. -/
def triple? (ds : Dependencies) (product : String) : Option Triple := (ds.version? product).bind numeric?

theorem exists_triple?_ofAssets (h : (ofAssets assets).get? product = some d) :
    ∃ t, (ofAssets assets).triple? product = some t ∧ IsGreatest {u | ∃ a ∈ assets, a.Dates product u} t := by
  obtain ⟨-, a, t, hgreatest, hversion⟩ := get?_ofAssets.1 h
  obtain ⟨ha, hdates⟩ := hgreatest.mem
  refine ⟨t, ?_, ⟨a, ha, hdates⟩, ?_⟩
  · have hnumeric := numeric?_eq_some_iff.2 hdates.2
    rw [hversion] at hnumeric
    rw [triple?, version?, h]
    exact hnumeric
  · rintro u ⟨b, hb, hu⟩
    exact hgreatest.le (fun _ _ _ => Dates.unique) hb hu

/-- **The triple that the assets provide** for a product is the greatest one that they give for it. -/
theorem triple?_ofAssets : (ofAssets assets).triple? product = some t ↔
    IsGreatest {u | ∃ a ∈ assets, a.Dates product u} t := by
  constructor
  · intro ht
    obtain ⟨v, hv, -⟩ := Option.bind_eq_some_iff.1 ht
    obtain ⟨d, hd, -⟩ := Option.map_eq_some_iff.1 hv
    obtain ⟨u, hu, hgreatest⟩ := exists_triple?_ofAssets hd
    obtain rfl : u = t := Option.some.inj (hu.symm.trans ht)
    exact hgreatest
  · intro ht
    obtain ⟨a, ha, hdates⟩ := ht.1
    obtain ⟨d, hd⟩ := Option.isSome_iff_exists.1 (isSome_get?_ofAssets.2 ⟨a, ha, t, hdates⟩)
    obtain ⟨u, hu, hgreatest⟩ := exists_triple?_ofAssets hd
    rw [hu, hgreatest.unique ht]

/-- **What the assets of a build provide.** A product is provided if an asset gives a triple for it, and its version
is that of the first asset of which the triple is the greatest. In whatever order the assets come, they provide the
same products, with the same triples; with more assets no product is lost, and no triple becomes less. -/
theorem ofAssets_provides (assets : List PublishedAsset) :
    (∀ product, ((ofAssets assets).get? product).isSome = true ↔
      ∃ a ∈ assets, a.Carries product ∧ ∃ t, Numbered a.version t) ∧
    (∀ product d, (ofAssets assets).get? product = some d ↔
      d.name = product ∧ ∃ a t, IsFirstGreatest (Dates product) assets a t ∧ a.version = d.version) ∧
    (∀ other, assets.Perm other → ∀ product,
      ((ofAssets other).get? product).isSome = ((ofAssets assets).get? product).isSome ∧
        (ofAssets other).triple? product = (ofAssets assets).triple? product) ∧
    ∀ more, assets ⊆ more → ∀ product, ((ofAssets assets).get? product).isSome = true →
      ((ofAssets more).get? product).isSome = true ∧ ∃ t u, (ofAssets assets).triple? product = some t ∧
        (ofAssets more).triple? product = some u ∧ t ≤ u := by
  have hprovided (assets : List PublishedAsset) (product : String) :
      ((ofAssets assets).get? product).isSome = true ↔ ∃ a ∈ assets, ∃ t, a.Dates product t := isSome_get?_ofAssets
  refine ⟨fun product => ?_, fun product d => get?_ofAssets, fun other hperm product => ⟨?_, ?_⟩, ?_⟩
  · rw [hprovided]
    simp only [Dates, exists_and_left]
  · rw [Bool.eq_iff_iff, hprovided, hprovided]
    simp only [hperm.mem_iff]
  · ext t
    rw [triple?_ofAssets, triple?_ofAssets]
    simp only [hperm.mem_iff]
  · intro more hsub product h
    have hmore : ((ofAssets more).get? product).isSome = true := by
      rw [hprovided] at h ⊢
      obtain ⟨a, ha, hdates⟩ := h
      exact ⟨a, hsub ha, hdates⟩
    obtain ⟨d, hd⟩ := Option.isSome_iff_exists.1 h
    obtain ⟨e, he⟩ := Option.isSome_iff_exists.1 hmore
    obtain ⟨t, ht, hgreatest⟩ := exists_triple?_ofAssets hd
    obtain ⟨u, hu, hgreatest'⟩ := exists_triple?_ofAssets he
    refine ⟨hmore, t, u, ht, hu, hgreatest.mono hgreatest' ?_⟩
    rintro _ ⟨a, ha, hdates⟩
    exact ⟨a, hsub ha, hdates⟩

/-- Two assets of one product with one triple and different versions, swapped, and then a third one that is higher. -/
theorem ofAssets_provides_divergent :
    let stable : PublishedAsset := ⟨"Microsoft.Dotnet.Sdk.Internal", "8.0.100-rtm.1"⟩
    let candidate : PublishedAsset := ⟨"microsoft.dotnet.sdk.internal", "8.0.100-rc.2"⟩
    let later : PublishedAsset := ⟨"Microsoft.Dotnet.Sdk.Internal", "v8.0.110"⟩
    [stable, candidate].Perm [candidate, stable] ∧ [stable, candidate] ⊆ [candidate, later, stable] ∧
      ((ofAssets [stable, candidate]).get? "sdk").isSome = true ∧
      (ofAssets [candidate, stable]).triple? "sdk" = (ofAssets [stable, candidate]).triple? "sdk" ∧
      ∃ t u, (ofAssets [stable, candidate]).triple? "sdk" = some t ∧
        (ofAssets [candidate, later, stable]).triple? "sdk" = some u ∧ t ≤ u := by
  intro stable candidate later
  obtain ⟨hprovided, -, hother, hmore⟩ := ofAssets_provides [stable, candidate]
  have hperm : [stable, candidate].Perm [candidate, stable] := List.Perm.swap ..
  have hsub : [stable, candidate] ⊆ [candidate, later, stable] := by simp
  have hsdk : ((ofAssets [stable, candidate]).get? "sdk").isSome = true := by
    rw [hprovided]
    refine ⟨stable, List.mem_cons_self, ⟨"Microsoft.Dotnet.Sdk.Internal", by decide, rfl⟩, ⟨8, 0, 100⟩, by decide⟩
  exact ⟨hperm, hsub, hsdk, (hother _ hperm "sdk").2, (hmore _ hsub "sdk" hsdk).2⟩

end Dependencies

end Upkeep
