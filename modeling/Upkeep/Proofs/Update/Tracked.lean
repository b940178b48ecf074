import Upkeep.Proofs.Update.Order

/-!
# Which variables are tracked

The segments of a name tell whether a variable is tracked, and in which stage. A tool takes all names that begin with
its own, whether it tracks them or not, so no product of the same name is found behind it.

* `Tracked`: **the segments of the tracked names**, stage by stage.
* `stage_updaterFor?_iff`: a variable has an updater in the stage in which its name is tracked.
* `updaters_iff_tracked`: **the updaters are those of the tracked variables**, each once and in order.
-/

namespace Upkeep

/-- No tool has a name. -/
def Settings.HasNoTool (s : Settings) (name : String) : Prop := ∀ tool ∈ s.tools, tool.name ≠ name

theorem Settings.tool?_eq_none_iff {s : Settings} {name : String} : s.tool? name = none ↔ s.HasNoTool name := by
  rw [tool?, List.find?_eq_none]
  simp only [decide_eq_true_eq, HasNoTool, ne_eq]

namespace Update

variable {s : Settings} {dockerfileVersion name p : String} {rest : List String} {stage : Stage} {tool : Tool}
  {u : Updater}

/-- The segments of the tracked names, and the stages in which their variables are worked on. -/
inductive Tracked (s : Settings) (dockerfileVersion : String) : List String → Stage → Prop where
  | toolRef {tool : Tool} (ht : tool ∈ s.tools) :
      Tracked s dockerfileVersion [tool.name, dockerfileVersion, "ref"] .toolRef
  | toolUrl {tool : Tool} (ht : tool ∈ s.tools) (arch : String) :
      Tracked s dockerfileVersion [tool.name, dockerfileVersion, arch, "url"] .toolUrl
  | toolChecksum {tool : Tool} (ht : tool ∈ s.tools) (arch : String) :
      Tracked s dockerfileVersion [tool.name, dockerfileVersion, arch, "sha"] .toolChecksum
  | baseUrl (hp : s.HasNoTool "base-url") :
      Tracked s dockerfileVersion ["base-url", dockerfileVersion, s.branch] .baseUrl
  | buildVersion {p : String} (hp : s.HasNoTool p) (hne : p ≠ "base-url") :
      Tracked s dockerfileVersion [p, dockerfileVersion, "build-version"] .buildVersion
  | productVersion {p : String} (hp : s.HasNoTool p) (hne : p ≠ "base-url") :
      Tracked s dockerfileVersion [p, dockerfileVersion, "product-version"] .productVersion
  | checksum {p : String} (hp : s.HasNoTool p) (htemplates : (s.templates? p).isSome) (os arch : String) :
      Tracked s dockerfileVersion [p, dockerfileVersion, os, arch, "sha"] .checksum

/-! ### What has an updater is tracked -/

theorem tracked_of_toolUpdater? (ht : tool ∈ s.tools) (h : toolUpdater? tool name rest = some u) :
    Tracked s dockerfileVersion (tool.name :: dockerfileVersion :: rest) u.stage := by
  unfold toolUpdater? at h
  split at h
  · split_ifs at h with hkind
    cases h
    subst hkind
    exact .toolRef ht
  · split_ifs at h with hkind hkind <;> cases h <;> subst hkind
    · exact .toolUrl ht _
    · exact .toolChecksum ht _
  · cases h

theorem tracked_of_productUpdater? (hp : s.HasNoTool p) (h : productUpdater? s p name rest = some u) :
    Tracked s dockerfileVersion (p :: dockerfileVersion :: rest) u.stage := by
  unfold productUpdater? at h
  split at h
  · split_ifs at h with hbase hkind hkind hkind <;> cases h <;> subst hkind
    · subst hbase
      exact .baseUrl hp
    · exact .buildVersion hp hbase
    · exact .productVersion hp hbase
  · split_ifs at h with hkind
    cases h
    obtain ⟨rfl, htemplates⟩ := hkind
    exact .checksum hp htemplates _ _
  · cases h

theorem tracked_of_updaterFor? (h : updaterFor? s dockerfileVersion name = some u) :
    Tracked s dockerfileVersion (Key.segments name) u.stage := by
  unfold updaterFor? at h
  split at h
  · rename_i first second rest hs
    split_ifs at h with hv
    subst hv
    rw [hs]
    split at h
    · rename_i tool hfound
      obtain rfl : tool.name = first := by simpa using List.find?_some hfound
      exact tracked_of_toolUpdater? (List.mem_of_find?_eq_some hfound) h
    · rename_i hnone
      exact tracked_of_productUpdater? (Settings.tool?_eq_none_iff.1 hnone) h
  · cases h

/-! ### What is tracked has an updater -/

/-- The names that begin with that of a tool are those of the first tool of this name. -/
theorem updaterFor?_tool (hs : Key.segments name = tool.name :: dockerfileVersion :: rest) (ht : tool ∈ s.tools) :
    ∃ first, updaterFor? s dockerfileVersion name = toolUpdater? first name rest := by
  cases hfound : s.tool? tool.name with
  | none => exact absurd rfl (Settings.tool?_eq_none_iff.1 hfound tool ht)
  | some first =>
    refine ⟨first, ?_⟩
    rw [updaterFor?, hs]
    simp [hfound]

theorem Tracked.exists_updaterFor? (h : Tracked s dockerfileVersion (Key.segments name) stage) :
    ∃ u, updaterFor? s dockerfileVersion name = some u ∧ u.stage = stage := by
  generalize hs : Key.segments name = l at h
  cases h with
  | toolRef ht =>
    obtain ⟨first, hfor⟩ := updaterFor?_tool hs ht
    exact ⟨_, hfor.trans rfl, rfl⟩
  | toolUrl ht arch =>
    obtain ⟨first, hfor⟩ := updaterFor?_tool hs ht
    exact ⟨_, hfor.trans rfl, rfl⟩
  | toolChecksum ht arch =>
    obtain ⟨first, hfor⟩ := updaterFor?_tool hs ht
    exact ⟨_, hfor.trans rfl, rfl⟩
  | baseUrl hp => exact ⟨_, updaterFor?_baseUrl hs (Settings.tool?_eq_none_iff.2 hp), rfl⟩
  | buildVersion hp hne => exact ⟨_, updaterFor?_buildVersion hs (Settings.tool?_eq_none_iff.2 hp) hne, rfl⟩
  | productVersion hp hne => exact ⟨_, updaterFor?_productVersion hs (Settings.tool?_eq_none_iff.2 hp) hne, rfl⟩
  | checksum hp htemplates os arch =>
    exact ⟨_, updaterFor?_checksum hs (Settings.tool?_eq_none_iff.2 hp) htemplates, rfl⟩

/-- A variable has an updater in the stage in which its name is tracked. -/
theorem stage_updaterFor?_iff : (updaterFor? s dockerfileVersion name).map (·.stage) = some stage ↔
    Tracked s dockerfileVersion (Key.segments name) stage := by
  rw [Option.map_eq_some_iff]
  constructor
  · rintro ⟨u, hu, rfl⟩
    exact tracked_of_updaterFor? hu
  · exact Tracked.exists_updaterFor?

instance : Decidable (Tracked s dockerfileVersion (Key.segments name) stage) :=
  decidable_of_iff _ stage_updaterFor?_iff

/-- **The updaters are those of the tracked variables**: they ascend by stage and name, no variable has two, and a
variable has one in a stage exactly if its name is tracked in this stage. -/
theorem updaters_iff_tracked (s : Settings) (dockerfileVersion : String) (vars : Variables) :
    (updaters s dockerfileVersion vars).Pairwise Updater.Precedes ∧
      ((updaters s dockerfileVersion vars).map (·.variableName)).Nodup ∧
      ∀ name stage, (∃ u ∈ updaters s dockerfileVersion vars, u.variableName = name ∧ u.stage = stage) ↔
        name ∈ vars ∧ Tracked s dockerfileVersion (Key.segments name) stage := by
  refine ⟨pairwise_updaters s dockerfileVersion vars, ?_, fun name stage => ?_⟩
  · exact List.pairwise_map.2 (pairwise_variableName_ne s dockerfileVersion vars)
  rw [← stage_updaterFor?_iff, Option.map_eq_some_iff]
  constructor
  · rintro ⟨u, hu, rfl, rfl⟩
    obtain ⟨hmem, hfor⟩ := mem_updaters.1 hu
    exact ⟨hmem, u, hfor, rfl⟩
  · rintro ⟨hmem, u, hfor, rfl⟩
    obtain rfl := (updaterFor?_eq_some hfor).1
    exact ⟨u, mem_updaters.2 ⟨hmem, hfor⟩, rfl, rfl⟩

-- a tool hides the product of its name
example : ¬ Tracked {} "9.0" (Key.segments "chisel|9.0|build-version") .buildVersion := by decide +kernel

end Update

end Upkeep
