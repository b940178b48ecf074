import Upkeep.Checksum.Location
import Upkeep.Proofs.Text.Replace

/-!
# The name of a sidecar

A sidecar is looked for at a relocated path, and each relocation replaces a text wherever it stands. What the path
has after its last slash is left alone by the containers, whose texts end with a slash; the content network is found
there too, and the storage where no path follows its host. The ending is put before the query, so behind a fragment
if the fragment comes first.

* `NamesChecksum`: **a sidecar names the checksum of its artifact**.
* `HostsStorage`: a storage host with no path behind it.
* `afterLast_relocate`, `length_afterLast_relocate`: the name of a relocated file is the same, or longer than any
  ending could make it.
* `namesChecksum_sidecarUrl_iff`: **when a sidecar names the checksum of its artifact**.
-/

namespace Upkeep.Checksum

open Text

variable {path s : List Char} {c : Char}

/-! ### Relocations -/

/-- What each relocation keeps, all keep. -/
theorem relocate_induction {P : List Char → Prop} (hpath : P path)
    (hstep : ∀ r ∈ relocations, ∀ s, P s → P (replace r.1 r.2 s)) : P (relocate path) := by
  unfold relocate
  generalize relocations = rs at hstep
  induction rs generalizing path with
  | nil => exact hpath
  | cons r rs ih =>
    exact ih (hstep r List.mem_cons_self path hpath) fun r hr => hstep r (List.mem_cons_of_mem _ hr)

theorem notMem_relocate (hnew : ∀ r ∈ relocations, c ∉ r.2) (hpath : c ∉ path) : c ∉ relocate path := by
  refine relocate_induction (P := fun s => c ∉ s) hpath ?_
  intro r hr s hs hc
  have hne : ∀ r ∈ relocations, r.1 ≠ [] := by decide
  exact (mem_replace (hne r hr) c hc).elim hs (hnew r hr)

theorem length_relocate (path : List Char) : path.length ≤ (relocate path).length := by
  refine relocate_induction (P := fun s => path.length ≤ s.length) le_rfl ?_
  intro r hr s ih
  have hlonger : ∀ r ∈ relocations, r.1 ≠ [] ∧ r.1.length ≤ r.2.length := by decide
  exact ih.trans (length_replace (hlonger r hr).1 (hlonger r hr).2 s).1

/-- A character that no relocation is about cuts a path. -/
theorem relocate_append_cons (h : ∀ r ∈ relocations, c ∉ r.1) (s t : List Char) :
    relocate (s ++ c :: t) = relocate s ++ c :: relocate t := by
  have hne : ∀ r ∈ relocations, r.1 ≠ [] := by decide
  unfold relocate
  generalize relocations = rs at h hne
  induction rs generalizing s t with
  | nil => rfl
  | cons r rs ih =>
    obtain ⟨old, new⟩ := r
    simp only [List.forall_mem_cons] at h hne
    simp only [List.foldl_cons, replace_append_cons hne.1 h.1]
    exact ih (replace old new s) (replace old new t) h.2 hne.2

/-- Relocations bring no query and no fragment. -/
theorem stops_notMem_relocate (hpath : ∀ c ∈ ['?', '#'], c ∉ path) : ∀ c ∈ ['?', '#'], c ∉ relocate path := by
  rw [List.forall_mem_cons, List.forall_mem_singleton] at hpath ⊢
  exact ⟨notMem_relocate (by decide) hpath.1, notMem_relocate (by decide) hpath.2⟩

/-! ### The name of a relocated file -/

/-- No slash follows a host of the storage, so the host counts as the name of the file. -/
def HostsStorage (path : List Char) : Prop :=
  ∃ front file, path = front ++ "://dotnetcli.".toList ++ file ∧ '/' ∉ file

/-- The path of an artifact with the content network replaced by its storage. -/
def stored (path : List Char) : List Char := replace contentHost storageHost path

/-- A path with the storage replaced by that of checksums. -/
def rehosted (path : List Char) : List Char := replace "://dotnetcli.".toList "://dotnetclichecksums.".toList path

/-- The containers change nothing after the last slash. -/
theorem afterLast_relocate_eq (path : List Char) :
    afterLast '/' (relocate path) = afterLast '/' (rehosted (stored path)) := by
  have hpublic (s : List Char) : afterLast '/' (replace "/public/".toList "/public-checksums/".toList s) =
      afterLast '/' s := afterLast_replace_eq_self (by decide) (by decide) s (.inl (by decide))
  have hinternal (s : List Char) : afterLast '/' (replace "/internal/".toList "/internal-checksums/".toList s) =
      afterLast '/' s := afterLast_replace_eq_self (by decide) (by decide) s (.inl (by decide))
  exact (hinternal _).trans (hpublic _)

theorem afterLast_stored (path : List Char) : afterLast '/' (stored path) = stored (afterLast '/' path) :=
  afterLast_replace (by decide) (by decide) (by decide) path

theorem stored_eq_self (h : ¬ contentHost <:+: s) : stored s = s := replace_eq_self h

theorem afterLast_rehosted (h : ¬ HostsStorage path) : afterLast '/' (rehosted path) = afterLast '/' path := by
  refine afterLast_replace_eq_self (by decide) (by decide) path (.inr fun front file hsplit => ?_)
  by_contra hfree
  exact h ⟨front, file, hsplit, hfree⟩

/-- A host with no path behind it is what follows the last slash. -/
theorem afterLast_host {host file : List Char} (hhost : '/' ∉ host) (hfile : '/' ∉ file) (front : List Char) :
    afterLast '/' (front ++ ("://".toList ++ host) ++ file) = host ++ file := by
  refine afterLast_eq_iff.2 ⟨?_, .inr ⟨front ++ ":/".toList, by simp⟩⟩
  rw [List.mem_append, not_or]
  exact ⟨hhost, hfile⟩

/-- Where the name of a file does not hold the content network, the storage hosts it before and after. -/
theorem hostsStorage_stored (h : ¬ contentHost <:+: afterLast '/' path) :
    HostsStorage (stored path) ↔ HostsStorage path := by
  have hcut (front name : List Char) : stored (front ++ '/' :: name) = stored front ++ '/' :: stored name :=
    replace_append_cons (by decide) (by decide) front name
  constructor
  · rintro ⟨front, file, hstored, hfile⟩
    have hname : "dotnetcli.".toList ++ file = afterLast '/' path := by
      rw [← stored_eq_self h, ← afterLast_stored, hstored]
      exact (afterLast_host (by decide) hfile front).symm
    rcases (afterLast_eq_iff.1 (rfl : afterLast '/' path = _)).2 with hpath | ⟨before, hpath⟩
    · rw [← hpath] at h
      exact ⟨front, file, by rw [← hstored, stored_eq_self h], hfile⟩
    · -- what stands before the last slash ends as it does after the replacement
      have hbefore : ":/".toList <:+ stored before := by
        rw [hpath, hcut, stored_eq_self h, ← hname] at hstored
        have hends : front ++ ":/".toList ++ '/' :: ("dotnetcli.".toList ++ file) =
            stored before ++ '/' :: ("dotnetcli.".toList ++ file) := by simpa using hstored.symm
        exact ⟨front, List.append_cancel_right hends⟩
      have hapart : ∀ c ∈ [':', '/'], c ∉ storageHost := by
        rw [List.forall_mem_cons, List.forall_mem_singleton]
        decide
      obtain ⟨front', rfl⟩ := suffix_of_suffix_replace (by decide) (by decide) hapart hbefore
      exact ⟨front', file, by rw [hpath, ← hname]; simp, hfile⟩
  · rintro ⟨front, file, rfl, hfile⟩
    have hname : afterLast '/' (front ++ "://dotnetcli.".toList ++ file) = "dotnetcli.".toList ++ file :=
      afterLast_host (by decide) hfile front
    rw [hname] at h
    have hcolon : stored (front ++ ":/".toList) = stored front ++ ":/".toList :=
      replace_append_cons (by decide) (by decide) front "/".toList
    refine ⟨stored front, file, ?_, hfile⟩
    have hall := hcut (front ++ ":/".toList) ("dotnetcli.".toList ++ file)
    rw [hcolon, stored_eq_self h] at hall
    simpa using hall

/-- **The name stays** if it does not hold the content network and the storage hosts no file without a path. -/
theorem afterLast_relocate (hcontent : ¬ contentHost <:+: afterLast '/' path) (hstorage : ¬ HostsStorage path) :
    afterLast '/' (relocate path) = afterLast '/' path := by
  have hstorage' : ¬ HostsStorage (stored path) := (hostsStorage_stored hcontent).not.2 hstorage
  rw [afterLast_relocate_eq, afterLast_rehosted hstorage', afterLast_stored, stored_eq_self hcontent]

/-- Replacing the storage never makes the name shorter, and makes it longer if the storage hosts a file without a
path. -/
theorem length_afterLast_rehosted (path : List Char) :
    (afterLast '/' path).length ≤ (afterLast '/' (rehosted path)).length ∧
      (HostsStorage path → (afterLast '/' path).length + 8 ≤ (afterLast '/' (rehosted path)).length) := by
  by_cases hstorage : HostsStorage path
  · obtain ⟨front, file, rfl, hfile⟩ := hstorage
    have hfound : rehosted (front ++ "://dotnetcli.".toList ++ file) =
        rehosted front ++ "://dotnetclichecksums.".toList ++ rehosted file :=
      replace_append_occurrence (by decide) front file
    have hrest : rehosted file = file := replace_eq_self fun hin => hfile (hin.subset (by decide))
    have hbefore : afterLast '/' (front ++ "://dotnetcli.".toList ++ file) = "dotnetcli.".toList ++ file :=
      afterLast_host (by decide) hfile front
    have hafter : afterLast '/' (rehosted front ++ "://dotnetclichecksums.".toList ++ file) =
        "dotnetclichecksums.".toList ++ file := afterLast_host (by decide) hfile (rehosted front)
    rw [hfound, hrest, hbefore, hafter]
    simp
  · rw [afterLast_rehosted hstorage]
    exact ⟨le_rfl, fun h => absurd h hstorage⟩

theorem length_stored (h : contentHost <:+: s) : s.length + 8 ≤ (stored s).length := by
  have hgrown : s.length + (storageHost.length - contentHost.length) ≤ (replace contentHost storageHost s).length :=
    (length_replace (by decide) (by decide) s).2 h
  exact hgrown

/-- **The name grows** by more than the endings differ in all other cases. -/
theorem length_afterLast_relocate (h : contentHost <:+: afterLast '/' path ∨ HostsStorage path) :
    (afterLast '/' path).length + 8 ≤ (afterLast '/' (relocate path)).length := by
  obtain ⟨hkept, hgrown⟩ := length_afterLast_rehosted (stored path)
  rw [afterLast_stored] at hkept hgrown
  rw [afterLast_relocate_eq]
  by_cases hcontent : contentHost <:+: afterLast '/' path
  · exact (length_stored hcontent).trans hkept
  · have hlater := hgrown ((hostsStorage_stored hcontent).2 (h.resolve_left hcontent))
    rwa [stored_eq_self hcontent] at hlater

/-! ### What a sidecar names -/

/-- The endings of checksums. -/
def endings : List String := [".sha", ".sha512"]

/-- **A sidecar names the checksum of its artifact**: the name of its file is that of the artifact with an ending, and
what follows the path is kept. -/
structure NamesChecksum (url sidecar : String) : Prop where
  name : ∃ ending ∈ endings, fileName sidecar = fileName url ++ ending
  tail : onward ['?', '#'] sidecar.toList = onward ['?', '#'] url.toList

instance (url sidecar : String) : Decidable (NamesChecksum url sidecar) :=
  decidable_of_iff ((∃ ending ∈ endings, fileName sidecar = fileName url ++ ending) ∧
      onward ['?', '#'] sidecar.toList = onward ['?', '#'] url.toList)
    ⟨fun h => ⟨h.1, h.2⟩, fun h => ⟨h.name, h.tail⟩⟩

theorem sidecarEnding_mem (path : List Char) (sdk : Bool) : String.ofList (sidecarEnding path sdk) ∈ endings := by
  unfold sidecarEnding
  split <;> decide

/-- The endings differ in length by less than a relocation makes a name longer. -/
theorem length_of_mem_endings {ending : String} (h : ending ∈ endings) :
    4 ≤ ending.toList.length ∧ ending.toList.length < 4 + 8 := by
  revert ending
  decide

theorem notMem_sidecarEnding (h : ∀ ending ∈ endings, c ∉ ending.toList) (path : List Char) (sdk : Bool) :
    c ∉ sidecarEnding path sdk := by
  simpa only [String.toList_ofList] using h _ (sidecarEnding_mem path sdk)

theorem length_sidecarEnding (path : List Char) (sdk : Bool) : 4 ≤ (sidecarEnding path sdk).length := by
  simpa only [String.toList_ofList] using (length_of_mem_endings (sidecarEnding_mem path sdk)).1

/-- A sidecar is the relocated path with an ending and the query. -/
theorem sidecarChars_eq (url : List Char) (sdk : Bool) :
    sidecarChars url sdk =
      relocate (upTo ['?'] url) ++ sidecarEnding (upTo ['?'] url) sdk ++ onward ['?'] url := by
  by_cases hquery : '?' ∈ url
  · obtain ⟨path, query, rfl, hfree⟩ := List.eq_append_cons_of_mem hquery
    have hfree' : ∀ c ∈ ['?'], c ∉ path := by simpa using hfree
    obtain ⟨hpath, hrest⟩ := upTo_append (t := '?' :: query) hfree' (by simp)
    rw [sidecarChars, cut_eq_some.2 ⟨rfl, hfree⟩, hpath, hrest]
  · obtain ⟨hpath, hrest⟩ : upTo ['?'] (url ++ []) = url ∧ onward ['?'] (url ++ []) = [] :=
      upTo_append (by simpa using hquery) (by simp)
    have hcut : cut '?' url = none := by
      by_contra hsome
      obtain ⟨⟨path, query⟩, hsplit⟩ := Option.ne_none_iff_exists'.1 hsome
      exact hquery (by simp [(cut_eq_some.1 hsplit).1])
    rw [List.append_nil] at hpath hrest
    rw [sidecarChars, hcut, hpath, hrest, List.append_nil]

/-- A fragment before the query is part of the path, so the ending makes it longer. -/
theorem length_onward_of_fragment {url : List Char} (h : '#' ∈ upTo ['?'] url) (sdk : Bool) :
    (onward ['?', '#'] url).length < (onward ['?', '#'] (sidecarChars url sdk)).length := by
  obtain ⟨path, part, hsplit, hfree⟩ := List.eq_append_cons_of_mem h
  have hpath : ∀ c ∈ ['?', '#'], c ∉ path := by
    rw [List.forall_mem_cons, List.forall_mem_singleton]
    refine ⟨fun hquery => ?_, hfree⟩
    have hmem : '?' ∈ upTo ['?'] url := by
      rw [hsplit]
      exact List.mem_append_left _ hquery
    exact stop_notMem_upTo List.mem_cons_self hmem
  have hurl : url = path ++ '#' :: (part ++ onward ['?'] url) := by
    rw [← List.cons_append, ← List.append_assoc, ← hsplit, upTo_append_onward]
  have hsidecar : sidecarChars url sdk = relocate path ++
      '#' :: (relocate part ++ sidecarEnding (upTo ['?'] url) sdk ++ onward ['?'] url) := by
    rw [sidecarChars_eq, hsplit, relocate_append_cons (by decide)]
    simp
  have hbefore := (upTo_append (t := '#' :: (part ++ onward ['?'] url)) hpath (by simp)).2
  have hafter := (upTo_append (t := '#' :: (relocate part ++ sidecarEnding (upTo ['?'] url) sdk ++ onward ['?'] url))
    (stops_notMem_relocate hpath) (by simp)).2
  rw [← hurl] at hbefore
  rw [← hsidecar] at hafter
  have hlonger := length_relocate part
  have hending := length_sidecarEnding (upTo ['?'] url) sdk
  rw [hbefore, hafter]
  simp only [List.length_cons, List.length_append]
  omega

/-- Without a fragment before the query, a URL and its sidecar have the same query. -/
theorem upTo_sidecarChars {url : List Char} (h : '#' ∉ upTo ['?'] url) (sdk : Bool) :
    (upTo ['?', '#'] url = upTo ['?'] url ∧ onward ['?', '#'] url = onward ['?'] url) ∧
      upTo ['?', '#'] (sidecarChars url sdk) = relocate (upTo ['?'] url) ++ sidecarEnding (upTo ['?'] url) sdk ∧
      onward ['?', '#'] (sidecarChars url sdk) = onward ['?'] url := by
  have hpath : ∀ c ∈ ['?', '#'], c ∉ upTo ['?'] url := by
    rw [List.forall_mem_cons, List.forall_mem_singleton]
    exact ⟨stop_notMem_upTo List.mem_cons_self, h⟩
  have hquery : ∀ c ∈ (onward ['?'] url).head?, c ∈ ['?', '#'] := fun c hc =>
    List.mem_append_left ['#'] (mem_of_head?_onward hc)
  have hending : ∀ c ∈ ['?', '#'], c ∉ sidecarEnding (upTo ['?'] url) sdk := by
    rw [List.forall_mem_cons, List.forall_mem_singleton]
    exact ⟨notMem_sidecarEnding (by decide) _ _, notMem_sidecarEnding (by decide) _ _⟩
  have hnew : ∀ c ∈ ['?', '#'], c ∉ relocate (upTo ['?'] url) ++ sidecarEnding (upTo ['?'] url) sdk := by
    intro c hc
    rw [List.mem_append, not_or]
    exact ⟨stops_notMem_relocate hpath c hc, hending c hc⟩
  have hurl := upTo_append hpath hquery
  rw [upTo_append_onward] at hurl
  rw [sidecarChars_eq]
  exact ⟨hurl, upTo_append hnew hquery⟩

/-- **When a sidecar names the checksum of its artifact**: if no fragment comes before the query, the name of the file
does not hold the content network, and the storage hosts no file without a path. -/
theorem namesChecksum_sidecarUrl_iff (url : String) (sdk : Bool) :
    NamesChecksum url (sidecarUrl url sdk) ↔
      '#' ∉ upTo ['?'] url.toList ∧ ¬ contentHost <:+: fileNameChars url.toList ∧
        ¬ HostsStorage (upTo ['?'] url.toList) := by
  by_cases hfragment : '#' ∈ upTo ['?'] url.toList
  · refine iff_of_false (fun h => ?_) fun h => h.1 hfragment
    have htail := h.tail
    rw [sidecarUrl, String.toList_ofList] at htail
    exact absurd (congrArg List.length htail) (length_onward_of_fragment hfragment sdk).ne'
  obtain ⟨⟨hpath, htail⟩, hpath', htail'⟩ := upTo_sidecarChars hfragment sdk
  have hname : fileNameChars (sidecarChars url.toList sdk) =
      afterLast '/' (relocate (upTo ['?'] url.toList)) ++ sidecarEnding (upTo ['?'] url.toList) sdk := by
    rw [fileNameChars, hpath', afterLast_append, if_neg (notMem_sidecarEnding (by decide) _ _)]
  rw [and_iff_right hfragment, fileNameChars, hpath, ← not_or]
  constructor
  · intro h hgrows
    obtain ⟨ending, hmem, hnames⟩ := h.name
    rw [fileName, fileName, sidecarUrl, String.toList_ofList, hname, fileNameChars, hpath, ← String.toList_inj,
      String.toList_append, String.toList_ofList, String.toList_ofList] at hnames
    have hlength := congrArg List.length hnames
    rw [List.length_append, List.length_append] at hlength
    have hlonger := length_afterLast_relocate hgrows
    have hending := length_sidecarEnding (upTo ['?'] url.toList) sdk
    have hshort := (length_of_mem_endings hmem).2
    omega
  · intro h
    obtain ⟨hcontent, hstorage⟩ := not_or.1 h
    refine ⟨⟨_, sidecarEnding_mem (upTo ['?'] url.toList) sdk, ?_⟩, ?_⟩
    · rw [fileName, fileName, sidecarUrl, String.toList_ofList, hname, afterLast_relocate hcontent hstorage,
        fileNameChars, hpath, String.ofList_append]
    · rw [sidecarUrl, String.toList_ofList, htail, htail']

/-- A fragment, with which the ending comes behind it, and a host that is taken for a file. -/
theorem sidecar_strays :
    ¬ (∀ (url : String) (sdk : Bool), ¬ contentHost <:+: fileNameChars url.toList →
        NamesChecksum url (sidecarUrl url sdk)) ∧
      sidecarUrl "https://example.com/a.zip#part" false = "https://example.com/a.zip#part.sha512" ∧
      ¬ NamesChecksum "https://example.com/a.zip#part" "https://example.com/a.zip#part.sha512" ∧
      sidecarUrl "https://dotnetcli.zip" false = "https://dotnetclichecksums.zip.sha512" ∧
      ¬ NamesChecksum "https://dotnetcli.zip" "https://dotnetclichecksums.zip.sha512" := by
  have hfragment : ¬ NamesChecksum "https://example.com/a.zip#part" "https://example.com/a.zip#part.sha512" := by
    decide +kernel
  have hsidecar : sidecarUrl "https://example.com/a.zip#part" false = "https://example.com/a.zip#part.sha512" := by
    decide +kernel
  refine ⟨fun h => ?_, hsidecar, hfragment, by decide +kernel, by decide +kernel⟩
  exact hfragment (hsidecar ▸ h "https://example.com/a.zip#part" false (by decide +kernel))

end Upkeep.Checksum
