import Mathlib.Data.List.Basic
import Upkeep.Proofs.Text.Cuts
import Upkeep.Update.Updater

/-!
# The order of the updaters

Which variables are tracked, and in which order a run takes them: by stage, and in a stage by name.
Each variable is taken once, so what a run finds when it takes one is fixed by this order.

* `mem_updaters`: the updaters are those of the variables.
* `pairwise_updaters`: **each updater precedes those after it**.
* `rule_of_updaterFor?`: **what an updater can be**, by the segments of its name.
* `updaterFor?_buildVersion`, `updaterFor?_productVersion`, `updaterFor?_baseUrl`,
  `updaterFor?_checksum`: the rules of the variables of products.
-/

namespace Upkeep.Update

open Text

variable {s : Settings} {dockerfileVersion name : String} {vars : Variables} {u u' : Updater}

/-- The place of a stage in the order of the stages. -/
def Stage.rank (stage : Stage) : Nat := Stage.all.idxOf stage

/-- A run takes one updater before the other. -/
def Updater.Precedes (u u' : Updater) : Prop :=
  u.stage.rank < u'.stage.rank ∨ u.stage = u'.stage ∧ u.variableName < u'.variableName

theorem Stage.mem_all (stage : Stage) : stage ∈ Stage.all := by
  cases stage <;> decide

theorem Stage.pairwise_all : Stage.all.Pairwise (·.rank < ·.rank) := by decide

/-- What an updater of a tool is. -/
theorem variableName_of_toolUpdater? {tool : Tool} {l : List String}
    (h : toolUpdater? tool name l = some u) : u.variableName = name := by
  unfold toolUpdater? at h
  split at h
  · split_ifs at h
    cases h; rfl
  · split_ifs at h <;> (cases h; rfl)
  · simp at h

theorem variableName_of_productUpdater? {product : String} {l : List String}
    (h : productUpdater? s product name l = some u) : u.variableName = name := by
  unfold productUpdater? at h
  split at h
  · split_ifs at h <;> (cases h; rfl)
  · split_ifs at h
    cases h; rfl
  · simp at h

theorem updaterFor?_eq_some (h : updaterFor? s dockerfileVersion name = some u) :
    u.variableName = name ∧ ∃ first rest, Key.segments name = first :: dockerfileVersion :: rest := by
  unfold updaterFor? at h
  split at h
  · rename_i first second rest hs
    split_ifs at h with hv
    refine ⟨?_, first, rest, by rw [hs, hv]⟩
    split at h
    · exact variableName_of_toolUpdater? h
    · exact variableName_of_productUpdater? h
  · simp at h

/-- The name of a tracked variable has a bar. -/
theorem bar_mem_of_updaterFor? (h : updaterFor? s dockerfileVersion name = some u) :
    '|' ∈ name.toList := by
  obtain ⟨-, first, rest, hs⟩ := updaterFor?_eq_some h
  have hname := Key.ofSegments_segments name
  rw [hs] at hname
  rw [← hname, Key.ofSegments, String.toList_ofList]
  simp [join, Key.separator]

/-- The updaters of a stage, in the order of the names. -/
def atStage (s : Settings) (dockerfileVersion : String) (vars : Variables) (stage : Stage) :
    List Updater :=
  (vars.keys.filterMap (updaterFor? s dockerfileVersion)).filter (·.stage = stage)

theorem mem_atStage {stage : Stage} : u ∈ atStage s dockerfileVersion vars stage ↔
    u.variableName ∈ vars ∧ updaterFor? s dockerfileVersion u.variableName = some u ∧
      u.stage = stage := by
  rw [atStage, List.mem_filter, List.mem_filterMap, decide_eq_true_eq]
  constructor
  · rintro ⟨⟨k, hk, hu⟩, hs⟩
    obtain rfl := (updaterFor?_eq_some hu).1
    exact ⟨Std.ExtTreeMap.mem_keys.1 hk, hu, hs⟩
  · rintro ⟨hk, hu, hs⟩
    exact ⟨⟨_, Std.ExtTreeMap.mem_keys.2 hk, hu⟩, hs⟩

/-- The updaters are those of the variables. -/
theorem mem_updaters : u ∈ updaters s dockerfileVersion vars ↔
    u.variableName ∈ vars ∧ updaterFor? s dockerfileVersion u.variableName = some u := by
  show u ∈ Stage.all.flatMap (atStage s dockerfileVersion vars) ↔ _
  rw [List.mem_flatMap]
  constructor
  · rintro ⟨stage, -, hu⟩
    obtain ⟨hk, hu, -⟩ := mem_atStage.1 hu
    exact ⟨hk, hu⟩
  · rintro ⟨hk, hu⟩
    exact ⟨u.stage, u.stage.mem_all, mem_atStage.2 ⟨hk, hu, rfl⟩⟩

/-- **Each updater precedes those after it.** -/
theorem pairwise_updaters (s : Settings) (dockerfileVersion : String) (vars : Variables) :
    (updaters s dockerfileVersion vars).Pairwise Updater.Precedes := by
  show (Stage.all.flatMap (atStage s dockerfileVersion vars)).Pairwise _
  rw [List.pairwise_flatMap]
  refine ⟨fun stage _ => ?_, Stage.pairwise_all.imp fun hlt u hu u' hu' => ?_⟩
  · -- in a stage the names come in the order of the keys
    rw [atStage, List.pairwise_filter, List.pairwise_filterMap]
    refine Std.ExtTreeMap.ordered_keys.imp fun hlt u hu u' hu' hstage hstage' => .inr ⟨?_, ?_⟩
    · rw [of_decide_eq_true hstage, of_decide_eq_true hstage']
    · rw [(updaterFor?_eq_some hu).1, (updaterFor?_eq_some hu').1]
      exact compareOfLessAndEq_eq_lt.1 hlt
  · rw [Updater.Precedes, (mem_atStage.1 hu).2.2, (mem_atStage.1 hu').2.2]
    exact .inl hlt

theorem Updater.Precedes.asymm (h : u.Precedes u') : ¬ u'.Precedes u := by
  rintro (hlt' | ⟨hs', hlt'⟩)
  · rcases h with hlt | ⟨hs, -⟩
    · omega
    · rw [hs] at hlt'
      omega
  · rcases h with hlt | ⟨-, hlt⟩
    · rw [hs'] at hlt
      omega
    · exact absurd hlt (String.lt_asymm hlt')

/-- No variable is taken twice. -/
theorem pairwise_variableName_ne (s : Settings) (dockerfileVersion : String) (vars : Variables) :
    (updaters s dockerfileVersion vars).Pairwise (·.variableName ≠ ·.variableName) := by
  refine (pairwise_updaters s dockerfileVersion vars).imp_of_mem fun hu hu' h hname => ?_
  -- a name has one updater, and none precedes itself
  have heq := (mem_updaters.1 hu).2
  rw [hname, (mem_updaters.1 hu').2] at heq
  obtain rfl := Option.some.inj heq
  exact h.asymm h

/-- What a run has taken when it comes to a variable: those that precede it. -/
theorem mem_before {l r : List Updater} (h : updaters s dockerfileVersion vars = l ++ u :: r) :
    u' ∈ l ↔ u' ∈ updaters s dockerfileVersion vars ∧ u'.Precedes u := by
  have hp := pairwise_updaters s dockerfileVersion vars
  rw [h, List.pairwise_append, List.pairwise_cons] at hp
  obtain ⟨-, ⟨hr, -⟩, hl⟩ := hp
  constructor
  · intro hu'
    exact ⟨by rw [h]; simp [hu'], hl u' hu' u (by simp)⟩
  · rintro ⟨hu', hprec⟩
    rw [h] at hu'
    rcases List.mem_append.1 hu' with hu' | hu'
    · exact hu'
    · rcases List.mem_cons.1 hu' with rfl | hu'
      · exact absurd hprec hprec.asymm
      · exact absurd (hr u' hu') hprec.asymm

/-! ### The rules of the variables of products -/

variable {p : String}

theorem updaterFor?_product {rest : List String} (hs : Key.segments name = p :: dockerfileVersion :: rest)
    (hp : s.tool? p = none) :
    updaterFor? s dockerfileVersion name = productUpdater? s p name rest := by
  rw [updaterFor?, hs]
  simp [hp]

theorem updaterFor?_buildVersion
    (hs : Key.segments name = [p, dockerfileVersion, Key.buildVersion]) (hp : s.tool? p = none)
    (hb : p ≠ Key.baseUrl) :
    updaterFor? s dockerfileVersion name = some ⟨.buildVersion, name, .buildVersion p⟩ := by
  rw [updaterFor?_product hs hp]
  simp [productUpdater?, hb]

theorem updaterFor?_productVersion
    (hs : Key.segments name = [p, dockerfileVersion, Key.productVersion]) (hp : s.tool? p = none)
    (hb : p ≠ Key.baseUrl) :
    updaterFor? s dockerfileVersion name = some ⟨.productVersion, name, .productVersion p⟩ := by
  rw [updaterFor?_product hs hp]
  simp [productUpdater?, hb, Key.productVersion, Key.buildVersion]

theorem updaterFor?_baseUrl
    (hs : Key.segments name = [Key.baseUrl, dockerfileVersion, s.branch])
    (hp : s.tool? Key.baseUrl = none) :
    updaterFor? s dockerfileVersion name = some ⟨.baseUrl, name, .baseUrl⟩ := by
  rw [updaterFor?_product hs hp]
  simp [productUpdater?]

theorem updaterFor?_checksum {os arch : String}
    (hs : Key.segments name = [p, dockerfileVersion, os, arch, Key.digest]) (hp : s.tool? p = none)
    (ht : (s.templates? p).isSome) :
    updaterFor? s dockerfileVersion name = some ⟨.checksum, name, .checksum name p os arch⟩ := by
  rw [updaterFor?_product hs hp]
  simp [productUpdater?, ht]

theorem updaterFor?_noTemplates {os arch : String}
    (hs : Key.segments name = [p, dockerfileVersion, os, arch, Key.digest]) (hp : s.tool? p = none)
    (ht : s.templates? p = none) : updaterFor? s dockerfileVersion name = none := by
  rw [updaterFor?_product hs hp]
  simp [productUpdater?, ht]

/-! ### What an updater can be -/

/-- The stages and the rules of the updaters of a name. -/
inductive Rule (s : Settings) (dockerfileVersion name : String) : Stage → Resolver → Prop where
  | buildVersion {p : String} (hs : Key.segments name = [p, dockerfileVersion, Key.buildVersion])
      (hp : p ≠ Key.baseUrl) : Rule s dockerfileVersion name .buildVersion (.buildVersion p)
  | productVersion {p : String} (hs : Key.segments name = [p, dockerfileVersion, Key.productVersion])
      (hp : p ≠ Key.baseUrl) : Rule s dockerfileVersion name .productVersion (.productVersion p)
  | baseUrl (hs : Key.segments name = [Key.baseUrl, dockerfileVersion, s.branch]) :
      Rule s dockerfileVersion name .baseUrl .baseUrl
  | checksum {p os arch : String}
      (hs : Key.segments name = [p, dockerfileVersion, os, arch, Key.digest]) :
      Rule s dockerfileVersion name .checksum (.checksum name p os arch)
  | toolRef {tool : Tool} (ht : tool ∈ s.tools) :
      Rule s dockerfileVersion name .toolRef (.gated tool.gatedOn (.toolRef tool))
  | toolUrl {tool : Tool} {arch : String} (ht : tool ∈ s.tools) :
      Rule s dockerfileVersion name .toolUrl (.gated tool.gatedOn (.toolAsset tool arch .url))
  | toolChecksum {tool : Tool} {arch : String} (ht : tool ∈ s.tools) :
      Rule s dockerfileVersion name .toolChecksum (.gated tool.gatedOn (.toolAsset tool arch .digest))

theorem rule_of_toolUpdater? {tool : Tool} {l : List String} (ht : tool ∈ s.tools)
    (h : toolUpdater? tool name l = some u) : Rule s dockerfileVersion name u.stage u.resolver := by
  unfold toolUpdater? at h
  split at h
  · split_ifs at h
    cases h
    exact .toolRef ht
  · split_ifs at h <;> cases h
    · exact .toolUrl ht
    · exact .toolChecksum ht
  · cases h

theorem rule_of_productUpdater? {rest : List String}
    (hs : Key.segments name = p :: dockerfileVersion :: rest)
    (h : productUpdater? s p name rest = some u) : Rule s dockerfileVersion name u.stage u.resolver := by
  unfold productUpdater? at h
  split at h
  · split_ifs at h with hp hkind hkind hkind <;> cases h
    · subst hp hkind
      exact .baseUrl hs
    · subst hkind
      exact .buildVersion hs hp
    · subst hkind
      exact .productVersion hs hp
  · split_ifs at h with hkind
    cases h
    obtain ⟨rfl, -⟩ := hkind
    exact .checksum hs
  · cases h

/-- **What an updater can be**, by the segments of its name. -/
theorem rule_of_updaterFor? (h : updaterFor? s dockerfileVersion name = some u) :
    Rule s dockerfileVersion name u.stage u.resolver := by
  unfold updaterFor? at h
  split at h
  · rename_i first second rest hs
    split_ifs at h with hv
    subst hv
    split at h
    · rename_i tool ht
      exact rule_of_toolUpdater? (List.mem_of_find?_eq_some ht) h
    · exact rule_of_productUpdater? hs h
  · cases h

/-! ### The segments of a name that was put together -/

namespace Key

variable {a b : String} {l : List String}

theorem bar_notMem_of_mem_segments (h : a ∈ segments name) : separator ∉ a.toList := by
  obtain ⟨f, hf, rfl⟩ := List.mem_map.1 h
  rw [String.toList_ofList]
  exact sep_notMem_of_mem_fields hf

theorem segments_ofSegments_cons (ha : separator ∉ a.toList) :
    segments (ofSegments (a :: b :: l)) = a :: segments (ofSegments (b :: l)) := by
  have hjoin : (ofSegments (a :: b :: l)).toList =
      a.toList ++ separator :: (ofSegments (b :: l)).toList := by
    simp [ofSegments, join]
  rw [segments, hjoin, fields_append ha, List.map_cons, String.ofList_toList]
  rfl

theorem segments_ofSegments_singleton (ha : separator ∉ a.toList) :
    segments (ofSegments [a]) = [a] := by
  simp [segments, ofSegments, join, fields_of_notMem ha]

end Key

end Upkeep.Update
