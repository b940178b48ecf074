import Upkeep.Proofs.Regex.Escape
import Upkeep.Proofs.Text.Replace
import Upkeep.Release
import Upkeep.Tool

/-!
# Patterns that name one asset

The version and the architecture are filled into a pattern one after the other, both escaped. If all else of the
pattern stands for itself too, the result is the escaped name of an asset, whatever the version and the architecture
are: neither place is found in what has been escaped.

* `Tool.patternBetween`: the patterns with texts around the two places.
* `Tool.fill_patternBetween`: **filling in such a pattern escapes the name of the asset.**
* `Tool.pattern?_names_asset`: such a pattern matches **the name of the asset and no other**.
-/

namespace Upkeep.Tool

open Text Regex

variable {s t place new version arch before between after : List Char} {c d : Char}

/-- A pattern of a whole name in which texts that stand for themselves surround the version and the architecture. -/
def patternBetween (before between after : List Char) : List Char :=
  '^' :: (escape before ++ versionPlace ++ (escape between ++ archPlace ++ (escape after ++ ['$'])))

/-! ### Where a place is found -/

/-- A closing brace stands directly after a character. -/
def Closes (c : Char) (s : List Char) : Prop := [c, '\x7d'] <:+: s

instance (c : Char) (s : List Char) : Decidable (Closes c s) :=
  inferInstanceAs (Decidable ([c, '\x7d'] <:+: s))

theorem not_closes_singleton : ¬ Closes c [d] := fun h => by simpa using h.length_le

/-- In an escaped text a closing brace stands after a backslash only. -/
theorem not_closes_escape (hc : c ≠ '\\') : ¬ Closes c (escape s) := by
  intro h
  rcases backslash_of_pair_infix h (by decide) with hc' | hbrace
  · exact hc hc'
  · exact absurd hbrace (by decide)

theorem not_closes_append (hs : ¬ Closes c s) (ht : ¬ Closes c t) (hhead : t.head? ≠ some '\x7d') :
    ¬ Closes c (s ++ t) := by
  intro h
  rcases List.infix_append_iff.1 h with h | h | ⟨a, b, hsplit, ha, hb⟩
  · exact hs h
  · exact ht h
  · simp only [List.cons_eq_append_iff, List.nil_eq_append_iff] at hsplit
    rcases hsplit with ⟨rfl, rfl⟩ | ⟨a, rfl, ⟨rfl, rfl⟩ | ⟨a, rfl, rfl, rfl⟩⟩
    · exact ht hb.isInfix
    · obtain ⟨rest, rfl⟩ := hb
      exact hhead rfl
    · exact hs ha.isInfix

theorem head?_escape_ne (s : List Char) : (escape s).head? ≠ some '\x7d' :=
  fun h => absurd (eq_backslash_of_head?_escape h (by decide)) (by decide)

/-- A place whose end is not found around it is found where it stands and nowhere else. -/
theorem replace_place (hopen : place.head? = some '\x7b') (hname : '\x7b' ∉ place.tail) (hclose : Closes c place)
    (hs : ¬ Closes c s) (ht : ¬ Closes c t) : replace place new (s ++ place ++ t) = s ++ new ++ t := by
  have hnot {u : List Char} (hu : ¬ Closes c u) : replace place new u = u :=
    replace_eq_self fun h => hu (hclose.trans h)
  have hfound : replace place new (s ++ place ++ t) = replace place new s ++ new ++ replace place new t := by
    obtain ⟨name, rfl⟩ := List.head?_eq_some_iff.1 hopen
    exact replace_append_occurrence hname s t
  rw [hfound, hnot hs, hnot ht]

/-- **Filling in such a pattern escapes the name of the asset.** -/
theorem fill_patternBetween : fill (patternBetween before between after) version arch =
    '^' :: (escape (before ++ version ++ between ++ arch ++ after) ++ ['$']) := by
  have hstart {c : Char} (hc : c ≠ '\\') (s : List Char) : ¬ Closes c ('^' :: escape s) :=
    not_closes_append (s := ['^']) (t := escape s) not_closes_singleton (not_closes_escape hc) (head?_escape_ne s)
  have hend {c : Char} (hc : c ≠ '\\') : ¬ Closes c (escape after ++ ['$']) :=
    not_closes_append (not_closes_escape hc) not_closes_singleton (by decide)
  have hhead : (escape after ++ ['$']).head? ≠ some '\x7d' := by
    rw [List.head?_append]
    cases h : (escape after).head? with
    | none => simp
    | some d => simpa [h] using head?_escape_ne after
  have hversion : replace versionPlace (escape version) (patternBetween before between after) =
      '^' :: escape before ++ escape version ++ (escape between ++ archPlace ++ (escape after ++ ['$'])) := by
    refine replace_place (c := 'n') rfl (by decide) (by decide) (hstart (by decide) _) ?_
    have hopen : (archPlace ++ (escape after ++ ['$'])).head? ≠ some '\x7d' := fun h =>
      absurd (Option.some.inj h : '\x7b' = '\x7d') (by decide)
    rw [List.append_assoc]
    refine not_closes_append (not_closes_escape (by decide)) ?_ hopen
    exact not_closes_append (by decide) (hend (by decide)) hhead
  have harch : replace archPlace (escape arch)
      ('^' :: escape (before ++ version ++ between) ++ archPlace ++ (escape after ++ ['$'])) =
        '^' :: escape (before ++ version ++ between) ++ escape arch ++ (escape after ++ ['$']) :=
    replace_place (c := 'h') rfl (by decide) (by decide) (hstart (by decide) _) (hend (by decide))
  simp only [escape_append, List.append_assoc, List.cons_append] at hversion harch ⊢
  rw [fill, hversion, harch]

/-- The name of the asset of a version for an architecture, with texts around the two. -/
def assetName (tool : Tool) (before between after version arch : String) : String :=
  before ++ version ++ between ++ tool.archName arch ++ after

/-- **A pattern with texts around the two places names one asset.** -/
theorem pattern?_names_asset :
    chisel.assetPattern = String.ofList (patternBetween "chisel_".toList "_linux_".toList ".tar.gz".toList) ∧
    ∀ (tool : Tool) (before between after version arch : String),
      tool.assetPattern = String.ofList (patternBetween before.toList between.toList after.toList) →
      ∃ pattern, tool.pattern? version arch = some pattern ∧
        (∀ name, pattern.isMatch name = true ↔ name = tool.assetName before between after version arch) ∧
        (∀ release : Release, release.findAsset? pattern =
          release.assets.find? (·.name = tool.assetName before between after version arch)) ∧
        (∀ version', pattern.isMatch (tool.assetName before between after version' arch) = true →
          version' = version) ∧
        ∀ arch', pattern.isMatch (tool.assetName before between after version arch') = true →
          tool.archName arch' = tool.archName arch := by
  refine ⟨by decide, fun tool before between after version arch hpattern => ?_⟩
  obtain ⟨pattern, hparse, hmatch⟩ := exists_parse_anchored_escape
    (before.toList ++ version.toList ++ between.toList ++ (tool.archName arch).toList ++ after.toList)
  have hexact (name : String) :
      pattern.isMatch name = true ↔ name = tool.assetName before between after version arch := by
    rw [hmatch, assetName, ← String.toList_inj]
    simp only [String.toList_append]
  refine ⟨pattern, ?_, hexact, fun release => ?_, fun version' h => ?_, fun arch' h => ?_⟩
  · rw [pattern?, patternText, hpattern, String.toList_ofList, fill_patternBetween, hparse]
  · have hsame : (fun a : Asset => pattern.isMatch a.name) =
        fun a => decide (a.name = tool.assetName before between after version arch) := by
      funext a
      rw [Bool.eq_iff_iff, hexact, decide_eq_true_iff]
    rw [Release.findAsset?, hsame]
  · rw [hexact, assetName, assetName] at h
    simpa using h
  · rw [hexact, assetName, assetName] at h
    simpa using h

/-- A version that is written like the place of the architecture. -/
theorem pattern?_names_asset_place :
    chisel.assetPattern = String.ofList (patternBetween "chisel_".toList "_linux_".toList ".tar.gz".toList) ∧
      ∃ pattern, chisel.pattern? "\x7barch\x7d" "arm32" = some pattern ∧
        ∀ name, pattern.isMatch name = true ↔ name = "chisel_\x7barch\x7d_linux_arm.tar.gz" := by
  obtain ⟨hchisel, hexact⟩ := pattern?_names_asset
  obtain ⟨pattern, hpattern, hmatch, -⟩ :=
    hexact chisel "chisel_" "_linux_" ".tar.gz" "\x7barch\x7d" "arm32" hchisel
  have hname : chisel.assetName "chisel_" "_linux_" ".tar.gz" "\x7barch\x7d" "arm32" =
      "chisel_\x7barch\x7d_linux_arm.tar.gz" := by decide +kernel
  exact ⟨hchisel, pattern, hpattern, fun name => by rw [hmatch, hname]⟩

end Upkeep.Tool
