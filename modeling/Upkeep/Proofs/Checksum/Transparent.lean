import Upkeep.Proofs.Checksum.Answers
import Upkeep.Proofs.Checksum.Concurrent
import Upkeep.Proofs.Once.Lead

/-!
# Lookups do not show what is remembered

When every question has one answer, and the local listing can be read, it makes no difference what a service has
found out before, or what it finds out meanwhile, except that lookups with the same URL have one answer: that of
the lookup that leads. It is the answer of a service that knows nothing.

* `fresh`: what a service that knows nothing answers.
* `expected`: **the answer to all requests with one URL**.
* `yields_answers`: what requests come to one after the other.
* `Batch`: several requests side by side.
* `calls_transparent`: **what is remembered does not show**.
-/

namespace Upkeep.Checksum

open Inquiry Once

/-- What a lookup comes to on a service that knows nothing, when each question has one answer. -/
def fresh (s : Service) (answer : (q : Source) → q.Answer) (r : Request) : Except Failure (Option String) :=
  ((alone (resolve s r) .empty).result answer).1

/-- **The answer to all requests with one URL**: what a service that knows nothing answers the first of them
whose lookup starts. -/
def expected (s : Service) (answer : (q : Source) → q.Answer) (moves : List (Move Request Source Source.Answer))
    (url : String) : Option (Except Failure (Option String)) :=
  (lead? Request.url moves url).map (fresh s answer)

/-- A lookup on its way. -/
abbrev LookupCall := Call Request Slot Slot.Content Source Source.Answer (Except Failure (Option String))

/-- What several lookups come to together, when all of them are over; the first failure is that of all. -/
def joined (calls : List LookupCall) : Option (Except Failure (List (String × Option String))) := do
  let found ← calls.mapM fun c => c.result?.map (c.label.url, ·)
  return found.mapM fun e => e.2.map (e.1, ·)

variable {s : Service} {answer : (q : Source) → q.Answer} {r : Request} {rs : List Request} {m m' : Findings}
  {a : Except Failure (Option String)} {moves later : List (Move Request Source Source.Answer)}
  {st st' : Lookups}

/-- The local listing can be read, if there is one. -/
def Readable (s : Service) (answer : (q : Source) → q.Answer) : Prop :=
  ∀ path, s.checksumsFile = some path → ∃ content, answer (.file path) = .ok content

theorem mayFind_iff_fresh : MayFind (fun q x => x = answer q) s r a ↔ a = fresh s answer r := by
  constructor
  · rintro ⟨m, h⟩
    rw [fresh, ← h.eq_result]
  · rintro rfl
    have hyields : (alone (resolve s r) .empty).Yields (fun q x => x = answer q)
        ((alone (resolve s r) .empty).result answer) := yields_result (R := fun q x => x = answer q) (fun _ => rfl) _
    exact ⟨_, hyields⟩

/-- A lookup does not fail when the local listing can be read. -/
theorem exists_fresh (h : Readable s answer) (r : Request) : ∃ d, fresh s answer r = .ok d := by
  cases hfresh : fresh s answer r with
  | ok d => exact ⟨d, rfl⟩
  | error e =>
    obtain ⟨path, e', hpath, he'⟩ := (mayFind_iff_fresh.2 hfresh.symm).exists_unreadable
    obtain ⟨content, hcontent⟩ := h path hpath
    cases he'.trans hcontent

/-! ### One lookup after the other -/

/-- What lookups rely on when each question has one answer, whoever leads. -/
abbrev recalling (s : Service) (answer : (q : Source) → q.Answer) :=
  finding s (fun q x => x = answer q) fun _ _ => True

/-- A lookup comes to what is remembered of its artifact, or else to what a service that knows nothing answers.
It leaves what is remembered of other artifacts. -/
theorem yields_resolve (hm : (recalling s answer).Fits m)
    (h : (alone (resolve s r) m).Yields (fun q x => x = answer q) (a, m')) :
    a = (cached? m r.url).elim (fresh s answer r) .ok ∧ (recalling s answer).Fits m' ∧
      ∀ url, url ≠ r.url → cached? m' url = cached? m url := by
  have hfits : (recalling s answer).Fits m' :=
    ((Pact.holds_alone (fun _ _ => trivial) hm (governs_finding s _ _ r)).of_yields h).2
  rcases yields_once h with ⟨d, hd, rfl, rfl⟩ | ⟨hnone, m₁, hsearch, rfl⟩
  · have hcached : cached? m' r.url = some d := hd
    rw [hcached]
    exact ⟨rfl, hfits, fun _ _ => rfl⟩
  · have hcached : cached? m r.url = none := hnone
    have hmay : MayFind (fun q x => x = answer q) s r a :=
      ((Pact.holds_alone (l := r) (fun _ _ => trivial) hm holds_search).of_yields hsearch).1
    rw [hcached]
    refine ⟨mayFind_iff_fresh.1 hmay, hfits, fun url hurl => ?_⟩
    have hframe : m₁.get? (.digest url) = m.get? (.digest url) :=
      alone_frame ((asks_search (permits_keepsDigests s _)).mono fun q hq => hq url) hsearch
    exact (Memory.get_put_of_ne m₁ (by simpa using hurl) _).trans hframe

/-- **Requests one after the other**, with different URLs: what is remembered answers, or else a service that knows
nothing does. -/
theorem yields_answers {found : List (String × Except Failure (Option String))}
    (hm : (recalling s answer).Fits m) (hrs : rs.Pairwise (·.url ≠ ·.url))
    (h : (alone (answers s rs) m).Yields (fun q x => x = answer q) (found, m')) :
    found = rs.map fun r => (r.url, (cached? m r.url).elim (fresh s answer r) .ok) := by
  induction rs generalizing m found with
  | nil =>
    obtain ⟨rfl, -⟩ := Prod.mk.inj (yields_done.1 h)
    rfl
  | cons r rs ih =>
    obtain ⟨hne, hrs⟩ := List.pairwise_cons.1 hrs
    obtain ⟨a, m₁, hresolve, hrest⟩ := yields_alone_bind.1 h
    obtain ⟨later, m₂, hlater, hdone⟩ := yields_alone_bind.1 hrest
    obtain ⟨rfl, rfl⟩ := Prod.mk.inj (yields_done.1 hdone)
    obtain ⟨rfl, hm₁, hsame⟩ := yields_resolve hm hresolve
    rw [ih hm₁ hrs hlater, List.map_cons]
    congr 1
    refine List.map_congr_left fun r' hr' => ?_
    rw [hsame r'.url (hne r' hr').symm]

/-! ### Requests with one URL -/

theorem mem_of_mem_distinct (h : r ∈ distinct rs) : r ∈ rs := by
  induction rs with
  | nil => exact h
  | cons r' rs ih =>
    rcases List.mem_cons.1 h with rfl | h
    · exact List.mem_cons_self
    · exact List.mem_cons_of_mem _ (ih (List.mem_filter.1 h).1)

theorem pairwise_distinct (rs : List Request) : (distinct rs).Pairwise (·.url ≠ ·.url) := by
  induction rs with
  | nil => exact .nil
  | cons r rs ih =>
    refine List.pairwise_cons.2 ⟨fun r' hr' => ?_, ih.sublist List.filter_sublist⟩
    exact (of_decide_eq_true (List.mem_filter.1 hr').2).symm

theorem distinct_of_pairwise (h : rs.Pairwise (·.url ≠ ·.url)) : distinct rs = rs := by
  induction rs with
  | nil => rfl
  | cons r rs ih =>
    obtain ⟨hne, hrs⟩ := List.pairwise_cons.1 h
    rw [distinct, ih hrs, List.filter_eq_self.2 fun r' hr' => by simpa using (hne r' hr').symm]

theorem distinct_filter (p : String → Bool) (rs : List Request) :
    distinct (rs.filter (p ·.url)) = (distinct rs).filter (p ·.url) := by
  induction rs with
  | nil => rfl
  | cons r rs ih =>
    cases hp : p r.url with
    | true =>
      simp only [distinct, List.filter_cons, hp, if_true, ih, List.filter_filter, Bool.and_comm]
    | false =>
      simp only [distinct, List.filter_cons, hp, Bool.false_eq_true, if_false, ih, List.filter_filter]
      refine List.filter_congr fun r' _ => ?_
      by_cases hr' : r'.url = r.url <;> simp [hr', hp]

/-- One request for each URL, in the order in which the URLs come first. -/
theorem map_url_distinct (rs : List Request) : (distinct rs).map (·.url) = (rs.map (·.url)).eraseDups := by
  induction hn : rs.length using Nat.strong_induction_on generalizing rs with
  | _ n ih =>
    cases rs with
    | nil => rfl
    | cons r rs =>
      have hlt : (rs.filter (·.url ≠ r.url)).length < n := by
        have := List.length_filter_le (fun r' : Request => decide (r'.url ≠ r.url)) rs
        rw [← hn, List.length_cons]
        omega
      rw [distinct, ← distinct_filter (fun url => url ≠ r.url), List.map_cons, ih _ hlt _ rfl, List.map_cons,
        List.eraseDups_cons, List.filter_map]
      congr 4
      funext r'
      by_cases hr' : r'.url = r.url <;> simp [hr']

/-- Answers that are all digests, or none, come together without a failure. -/
theorem mapM_ok (digest : Request → Option String) (rs : List Request) :
    (rs.map fun r => (r.url, (Except.ok (digest r) : Except Failure (Option String)))).mapM
      (fun e => e.2.map (e.1, ·)) = Except.ok (rs.map fun r => (r.url, digest r)) := by
  induction rs with
  | nil => rfl
  | cons r rs ih =>
    rw [List.map_cons, List.mapM_cons, ih]
    rfl

/-- What several requests come to, one after the other: one entry for each URL. -/
theorem resolveAll_eq {digest : Request → Option String} (hdigest : ∀ r, fresh s answer r = .ok (digest r))
    (hm : (recalling s answer).Fits m) : ((alone (resolveAll s rs) m).result answer).1 =
      .ok ((distinct rs).map fun r => (r.url, (cached? m r.url).getD (digest r))) := by
  have hyields : (alone (resolveAll s rs) m).Yields (fun q x => x = answer q)
      ((alone (resolveAll s rs) m).result answer) := yields_result (R := fun q x => x = answer q) (fun _ => rfl) _
  obtain ⟨found, m₁, hfound, hdone⟩ := yields_alone_bind.1 hyields
  obtain ⟨hresult, -⟩ := Prod.mk.inj (yields_done.1 hdone)
  have hremembered (r : Request) : (cached? m r.url).elim (fresh s answer r) .ok =
      .ok ((cached? m r.url).getD (digest r)) := by
    cases cached? m r.url with
    | none => exact hdigest r
    | some d => rfl
  rw [hresult, yields_answers hm (pairwise_distinct rs) hfound]
  simp only [hremembered]
  exact mapM_ok _ _

/-! ### Lookups side by side -/

/-- Every answer that is received is the one that its question has. -/
def AnsweredBy (answer : (q : Source) → q.Answer) (moves : List (Move Request Source Source.Answer)) : Prop :=
  ∀ i x, .receive i x ∈ moves → x = answer

/-- What the slots hold after any schedule. -/
theorem kept_of_run (hread : Readable s answer) (hmoves : AnsweredBy answer moves)
    (hrun : System.run (resolve s) .start moves = some st) :
    (finding s (fun q x => x = answer q) fun url r => lead? Request.url moves url = some r).Kept st := by
  have hbegins : Begins (resolve s) Request.url Slot.digest := fun r => ⟨_, rfl⟩
  refine Pact.Kept.run_led (governs_finding s _ _) hbegins ?_ (fun r slot h => h)
    (Pact.forall_allows fun i x hx q => congrFun (hmoves i x hx) q) hrun
  rintro url ⟨path, e, hpath, he⟩
  obtain ⟨content, hcontent⟩ := hread path hpath
  cases he.trans hcontent

variable {c : LookupCall}

theorem expected_eq_some {url : String} : expected s answer moves url = some a ↔
    ∃ r, lead? Request.url moves url = some r ∧ MayFind (fun q x => x = answer q) s r a := by
  simp [expected, mayFind_iff_fresh, eq_comm]

/-- A lookup that is over came to the answer to all requests with its URL. -/
theorem expected_of_result (hread : Readable s answer) (hmoves : AnsweredBy answer moves)
    (hrun : System.run (resolve s) .start moves = some st) (hc : c ∈ st.calls) (ha : c.result? = some a) :
    expected s answer moves c.label.url = some a :=
  expected_eq_some.2 ((kept_of_run hread hmoves hrun).result hc ha)

/-- The answer to all requests with one URL stays what it is. -/
theorem expected_append {url : String} (h : expected s answer moves url = some a) :
    expected s answer (moves ++ later) url = some a := by
  obtain ⟨r, hr, hmay⟩ := expected_eq_some.1 h
  refine expected_eq_some.2 ⟨r, ?_, hmay⟩
  rw [lead?] at hr ⊢
  rw [worked_append, List.find?_append, hr]
  rfl

/-- When only one request has a URL, the answer is that of a service that knows nothing. -/
theorem eq_fresh_of_unique (h : ∀ r' ∈ begun moves, r'.url = r.url → r' = r)
    (ha : expected s answer moves r.url = some a) : a = fresh s answer r := by
  obtain ⟨r', hr', hmay⟩ := expected_eq_some.1 ha
  have hurl : r'.url = r.url := by simpa using List.find?_some hr'
  have hmem : r' ∈ begun moves := by simpa using mem_begun_of_mem_worked (List.mem_of_find?_eq_some hr')
  rw [← h r' hmem hurl]
  exact mayFind_iff_fresh.1 hmay

/-- The slot of an artifact holds the digest that a lookup came to. -/
theorem full_of_result (hrun : System.run (resolve s) .start moves = some st) (hc : c ∈ st.calls)
    {d : Option String} (hd : c.result? = some (.ok d)) : st.cells (.digest c.label.url) = .full d := by
  have hinv : (sharing s).Inv st :=
    (Protocol.inv_start _).run (governs_sharing s) (Protocol.forall_allows fun _ _ _ _ => trivial) hrun
  obtain ⟨-, seen, hresult, hseen⟩ := hinv.result hc hd
  exact hseen _ (hresult d rfl)

/-- What the slots hold is what requests that come one after the other rely on. -/
theorem fits_memory (hread : Readable s answer) (hmoves : AnsweredBy answer moves)
    (hrun : System.run (resolve s) .start moves = some st) : (recalling s answer).Fits st.memory := by
  intro slot content hcontent
  have hfits := (kept_of_run hread hmoves hrun).cells slot content (System.memory_get?.1 hcontent)
  cases slot with
  | digest url =>
    obtain ⟨r, -, hmay⟩ := hfits
    exact ⟨r, trivial, hmay⟩
  | listing url | localListing => exact hfits

/-- Lookups that all came to a digest, or to none, come together without a failure. -/
theorem joined_eq {calls : List LookupCall} {digest : Request → Option String}
    (h : ∀ c ∈ calls, c.result? = some (.ok (digest c.label))) :
    joined calls = some (.ok ((calls.map (·.label)).map fun r => (r.url, digest r))) := by
  have hfound : (calls.mapM fun c => c.result?.map (c.label.url, ·)) =
      some ((calls.map (·.label)).map fun r => (r.url, .ok (digest r))) := by
    induction calls with
    | nil => rfl
    | cons c calls ih =>
      obtain ⟨hc, hcalls⟩ := List.forall_mem_cons.1 h
      rw [List.mapM_cons, ih hcalls, hc]
      rfl
  rw [joined, hfound, ← mapM_ok]
  rfl

/-- The lookups of a batch that begins in a state. -/
def batchOf (rs : List Request) (st st' : Lookups) : List LookupCall :=
  (st'.calls.drop st.calls.length).take (distinct rs).length

/-- **A batch**: a lookup begins for each URL, and then anything may happen, until all of these lookups are
over. -/
structure Batch (s : Service) (answer : (q : Source) → q.Answer) (rs : List Request) (st : Lookups)
    (later : List (Move Request Source Source.Answer)) (st' : Lookups) : Prop where
  run : st.run (resolve s) ((distinct rs).map .call ++ later) = some st'
  answered : AnsweredBy answer later
  ended : ∀ c ∈ batchOf rs st st', ∃ a, c.result? = some a

theorem begun_batch (rs : List Request) (later : List (Move Request Source Source.Answer)) :
    begun ((distinct rs).map .call ++ later) = distinct rs ++ begun later := by
  rw [begun_append, begun, List.filterMap_map]
  simp

/-- A batch has one lookup for each URL. -/
theorem Batch.labels (h : Batch s answer rs st later st') : (batchOf rs st st').map (·.label) = distinct rs := by
  rw [batchOf, List.map_take, List.map_drop, labels_of_run h.run, begun_batch]
  simp

/-- The answer that a lookup of a batch comes to. -/
theorem Batch.exists_digest (h : Batch s answer rs st later st') (hread : Readable s answer)
    (hmoves : AnsweredBy answer moves) (hrun : System.run (resolve s) .start moves = some st)
    (hc : c ∈ batchOf rs st st') : ∃ d, c.result? = some (.ok d) ∧
      expected s answer (moves ++ ((distinct rs).map .call ++ later)) c.label.url = some (.ok d) := by
  have hmem : c ∈ st'.calls := List.mem_of_mem_drop (List.mem_of_mem_take hc)
  have hall : AnsweredBy answer (moves ++ ((distinct rs).map .call ++ later)) := by
    intro i x hx
    rcases List.mem_append.1 hx with hx | hx
    · exact hmoves i x hx
    · rcases List.mem_append.1 hx with hx | hx
      · simp at hx
      · exact h.answered i x hx
  obtain ⟨a, ha⟩ := h.ended c hc
  have hexpected := expected_of_result hread hall (run_append.trans (by rw [hrun]; exact h.run)) hmem ha
  obtain ⟨r, -, hr⟩ := Option.map_eq_some_iff.1 hexpected
  obtain ⟨d, hd⟩ := exists_fresh hread r
  obtain rfl := hr.symm.trans hd
  exact ⟨d, ha, hexpected⟩

/-- **A batch has one entry for each URL**, in the order in which the URLs come first. -/
theorem Batch.joined (h : Batch s answer rs st later st') (hread : Readable s answer)
    (hmoves : AnsweredBy answer moves) (hrun : System.run (resolve s) .start moves = some st) :
    ∃ found, Checksum.joined (batchOf rs st st') = some (.ok found) ∧
      found.map (·.1) = (rs.map (·.url)).eraseDups ∧
      ∀ e ∈ found, expected s answer (moves ++ ((distinct rs).map .call ++ later)) e.1 = some (.ok e.2) := by
  let digest (r : Request) : Option String :=
    ((expected s answer (moves ++ ((distinct rs).map .call ++ later)) r.url).bind Except.toOption).join
  have hdigest : ∀ c ∈ batchOf rs st st', c.result? = some (.ok (digest c.label)) ∧
      expected s answer (moves ++ ((distinct rs).map .call ++ later)) c.label.url = some (.ok (digest c.label)) := by
    intro c hc
    obtain ⟨d, hd, hexpected⟩ := h.exists_digest hread hmoves hrun hc
    have : digest c.label = d := by simp [digest, hexpected, Except.toOption]
    rw [this]
    exact ⟨hd, hexpected⟩
  refine ⟨_, joined_eq fun c hc => (hdigest c hc).1, ?_, fun e he => ?_⟩
  · rw [h.labels, List.map_map, ← map_url_distinct]
    rfl
  · obtain ⟨r, hr, rfl⟩ := List.mem_map.1 he
    obtain ⟨c, hc, rfl⟩ := List.mem_map.1 hr
    exact (hdigest c hc).2

/-- **A batch side by side is a batch one after the other**, as long as no other lookup of its artifacts is under
way. -/
theorem Batch.joined_eq_resolveAll (h : Batch s answer rs st later st') (hread : Readable s answer)
    (hmoves : AnsweredBy answer moves) (hrun : System.run (resolve s) .start moves = some st)
    (hbefore : ∀ c ∈ st.calls, c.label.url ∈ rs.map (·.url) → ∃ a, c.result? = some a)
    (hlater : ∀ r ∈ begun later, r.url ∉ rs.map (·.url)) :
    Checksum.joined (batchOf rs st st') = some ((alone (resolveAll s rs) st.memory).result answer).1 := by
  choose digest hdigest using exists_fresh hread
  rw [resolveAll_eq hdigest (fits_memory hread hmoves hrun), ← h.labels]
  refine joined_eq fun c hc => ?_
  obtain ⟨d, hd, hexpected⟩ := h.exists_digest hread hmoves hrun hc
  rw [hd]
  congr 2
  have hlabel : c.label ∈ distinct rs := by
    rw [← h.labels]
    exact List.mem_map_of_mem hc
  have hurl : c.label.url ∈ rs.map (·.url) := List.mem_map_of_mem (mem_of_mem_distinct hlabel)
  cases hcached : cached? st.memory c.label.url with
  | some d' =>
    -- the lead was there before the batch
    have hfits := (kept_of_run hread hmoves hrun).cells (.digest c.label.url) d' (System.memory_get?.1 hcached)
    have hearlier : expected s answer moves c.label.url = some (.ok d') := expected_eq_some.2 hfits
    exact Except.ok.inj (Option.some.inj (hexpected.symm.trans (expected_append hearlier)))
  | none =>
    -- no other request has this URL
    have hunique : ∀ r ∈ begun (moves ++ ((distinct rs).map .call ++ later)), r.url = c.label.url → r = c.label := by
      intro r hr hsame
      rw [begun_append, begun_batch] at hr
      rcases List.mem_append.1 hr with hr | hr
      · rw [← labels_of_run_start hrun] at hr
        obtain ⟨c', hc', rfl⟩ := List.mem_map.1 hr
        obtain ⟨a, ha⟩ := hbefore c' hc' (hsame ▸ hurl)
        obtain ⟨r', -, hr'⟩ := Option.map_eq_some_iff.1 (expected_of_result hread hmoves hrun hc' ha)
        rw [← hr', hdigest] at ha
        have hfull := System.memory_get?.2 (full_of_result hrun hc' ha)
        rw [hsame] at hfull
        cases hfull.symm.trans hcached
      · rcases List.mem_append.1 hr with hr | hr
        · have hnodup : ((distinct rs).map (·.url)).Nodup :=
            List.pairwise_map.2 (pairwise_distinct rs)
          exact List.inj_on_of_nodup_map hnodup hr hlabel hsame
        · exact absurd (hsame ▸ hurl) (hlater r hr)
    have hfresh := eq_fresh_of_unique hunique hexpected
    rw [hdigest] at hfresh
    exact Except.ok.inj hfresh

/-- What holds of lookups when each question has one answer. -/
structure Transparent (s : Service) (answer : (q : Source) → q.Answer)
    (moves : List (Move Request Source Source.Answer)) (st : Lookups) : Prop where
  /-- A lookup that is over came to the answer to all requests with its URL. -/
  answers : ∀ c ∈ st.calls, ∀ a, c.result? = some a → expected s answer moves c.label.url = some a
  /-- If no other request has its URL, this is what a service that knows nothing answers it. -/
  apart : ∀ c ∈ st.calls, (∀ c' ∈ st.calls, c'.label.url = c.label.url → c'.label = c.label) →
    ∀ a, c.result? = some a → a = fresh s answer c.label
  /-- A batch has one entry for each URL, in the order in which the URLs come first. -/
  batch : ∀ rs later st', Batch s answer rs st later st' →
    ∃ found, joined (batchOf rs st st') = some (.ok found) ∧
      found.map (·.1) = (rs.map (·.url)).eraseDups ∧
      ∀ e ∈ found, expected s answer (moves ++ ((distinct rs).map .call ++ later)) e.1 = some (.ok e.2)
  /-- It comes to what its requests come to one after the other, as long as no other lookup of its artifacts is
  under way. -/
  inTurn : ∀ rs later st', Batch s answer rs st later st' →
    (∀ c ∈ st.calls, c.label.url ∈ rs.map (·.url) → ∃ a, c.result? = some a) →
    (∀ r ∈ begun later, r.url ∉ rs.map (·.url)) →
      joined (batchOf rs st st') = some ((alone (resolveAll s rs) st.memory).result answer).1
  /-- The order of requests with different URLs does not matter. -/
  order : ∀ rs rs', rs.Perm rs' → (rs.map (·.url)).Nodup →
    ∃ found found', ((alone (resolveAll s rs) st.memory).result answer).1 = .ok found ∧
      ((alone (resolveAll s rs') st.memory).result answer).1 = .ok found' ∧ found.Perm found'
  /-- No lookup waits forever. -/
  ends : Inevitably (System.Continues (fun q x => x = answer q) (resolve s))
    (fun st' => st'.calls.map (·.label) = st.calls.map (·.label) ∧
      ∀ c ∈ st'.calls, ∃ a, c.result? = some a) st

/-- **What is remembered does not show**: when each question has one answer, and the local listing can be read if
there is one, every lookup comes to what a service that knows nothing answers the first request with its URL whose
lookup starts, in any schedule. -/
theorem calls_transparent (hread : Readable s answer) (hmoves : AnsweredBy answer moves)
    (hrun : System.run (resolve s) .start moves = some st) : Transparent s answer moves st where
  answers c hc a ha := expected_of_result hread hmoves hrun hc ha
  apart c hc hunique a ha := by
    refine eq_fresh_of_unique (fun r hr hurl => ?_) (expected_of_result hread hmoves hrun hc ha)
    rw [← labels_of_run_start hrun] at hr
    obtain ⟨c', hc', rfl⟩ := List.mem_map.1 hr
    exact hunique c' hc' hurl
  batch rs later st' h := h.joined hread hmoves hrun
  inTurn rs later st' h := h.joined_eq_resolveAll hread hmoves hrun
  order rs rs' hperm hnodup := by
    choose digest hdigest using exists_fresh hread
    have hm := fits_memory hread hmoves hrun
    have hnodup' : (rs'.map (·.url)).Nodup := (hperm.map _).nodup_iff.1 hnodup
    refine ⟨_, _, resolveAll_eq hdigest hm, resolveAll_eq hdigest hm, ?_⟩
    rw [distinct_of_pairwise (List.pairwise_map.1 hnodup), distinct_of_pairwise (List.pairwise_map.1 hnodup')]
    exact hperm.map _
  ends := by
    let P := { sharing s with allowed := fun q x => x = answer q }
    have hbody : P.Governs (resolve s) := fun r => (governs_sharing s r).narrow fun _ _ _ => trivial
    have hinv : P.Inv st := (Protocol.inv_start P).run hbody
      (Protocol.forall_allows fun i x hx q => congrFun (hmoves i x hx) q) hrun
    exact (hinv.inevitably_over hbody fun q => ⟨answer q, rfl⟩).mono fun st' h => ⟨h.1.2, h.2⟩

/-- An artifact of a release. -/
def original : Request :=
  { url := publicBase ++ "/b.zip", product := "runtime", buildVersion := some "9.0.1", baseUrl := some publicBase }

/-- The same artifact as another product, of no release. -/
def namesake : Request := { url := original.url, product := "sdk" }

/-- A service with a local listing. -/
def listingService : Service := { checksumsFile := some "sums.txt" }

/-- One text for all URLs, which is a listing and a sidecar, and a local listing that has another artifact. -/
def oneText : (q : Source) → q.Answer
  | .text _ => .ok (some "0a a.zip\n0b b.zip")
  | .sha512 _ => .ok none
  | .file _ => .ok "0c c.zip"

/-- The lookup that begins last starts first, and the other one takes what it finds. -/
def namesakeFirst : List (Move Request Source Source.Answer) :=
  [original, namesake].map .call ++
    [.work 1, .work 1, .work 1, .receive 1 oneText, .work 1, .work 1, .receive 1 oneText, .work 1, .work 0]

/-- A batch that has the artifact more than once, and another one. -/
def moreRequests : List Request := [original, namesake] ++ siblings

/-- The batch goes on: its first lookup takes what is known, and the second one fetches a listing. -/
def batchGoesOn : List (Move Request Source Source.Answer) :=
  [.work 3, .work 2, .work 3, .work 3, .work 3, .receive 3 oneText, .work 3, .work 3]

/-- On its own, the artifact has the digest of its listing, and not that of the sidecar. -/
theorem fresh_original : fresh listingService oneText original = .ok (some "0b") := by
  have hplan : plan listingService original =
      [.listing (publicBase ++ "/checksums/9.0.1-sha.txt"), .sidecar (sidecarUrl original.url false),
        .artifact original.url] := by rfl
  have hlocal : localAnswer "sums.txt" (fileName original.url) (.ok "0c c.zip") = .ok none := by rfl
  have hlisting : (Listing.parse "0a a.zip\n0b b.zip").get? (fileName original.url) = some "0b" := by rfl
  have hwent : Went listingService original
      [⟨.file "sums.txt", .ok "0c c.zip"⟩,
        ⟨.text (publicBase ++ "/checksums/9.0.1-sha.txt"), .ok (some "0a a.zip\n0b b.zip")⟩]
      (.ok (some "0b")) := by
    refine ⟨_, _, rfl, ?_⟩
    rw [hlocal]
    refine ⟨_, rfl, ?_⟩
    rw [hplan]
    exact .found (p := .listing _) hlisting
  refine (mayFind_iff_fresh.1 (mayFind_iff.2 ⟨_, hwent, ?_⟩)).symm
  exact List.forall_mem_cons.2 ⟨rfl, List.forall_mem_singleton.2 rfl⟩

theorem calls_transparent_namesake : ∃ st st',
    System.run (resolve listingService) .start namesakeFirst = some st ∧
      st.calls.map (·.result?) = [some (.ok (some "0a")), some (.ok (some "0a"))] ∧
      fresh listingService oneText original = .ok (some "0b") ∧
      Batch listingService oneText moreRequests st batchGoesOn st' ∧
      (batchOf moreRequests st st').map (·.result?) = [some (.ok (some "0a")), some (.ok (some "0a"))] ∧
      Transparent listingService oneText namesakeFirst st := by
  have hrun : (System.run (resolve listingService) .start namesakeFirst).map
      (fun st => st.calls.map (·.result?)) = some [some (.ok (some "0a")), some (.ok (some "0a"))] := by rfl
  obtain ⟨st, hst, hresults⟩ := Option.map_eq_some_iff.1 hrun
  have hruns : (System.run (resolve listingService) .start
      (namesakeFirst ++ ((distinct moreRequests).map .call ++ batchGoesOn))).map
        (fun st' => ((st'.calls.drop 2).take 2).map (·.result?)) =
          some [some (.ok (some "0a")), some (.ok (some "0a"))] := by rfl
  obtain ⟨st', hst', hdigests⟩ := Option.map_eq_some_iff.1 hruns
  rw [run_append, hst, Option.bind_some] at hst'
  have hbefore : st.calls.length = 2 := by simpa using congrArg List.length hresults
  have hlength : (distinct moreRequests).length = 2 := by rfl
  have hbatch : batchOf moreRequests st st' = (st'.calls.drop 2).take 2 := by rw [batchOf, hbefore, hlength]
  rw [← hbatch] at hdigests
  refine ⟨st, st', hst, hresults, fresh_original, ⟨hst', ?_, fun c hc => ?_⟩, hdigests, calls_transparent ?_ ?_ hst⟩
  · simp [AnsweredBy, batchGoesOn]
  · have hmem : c.result? ∈ (batchOf moreRequests st st').map (·.result?) := List.mem_map_of_mem hc
    rw [hdigests] at hmem
    exact ⟨_, by simpa using hmem⟩
  · exact fun path _ => ⟨_, rfl⟩
  · simp [AnsweredBy, namesakeFirst]

end Upkeep.Checksum
