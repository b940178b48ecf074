import Mathlib.Tactic.SplitIfs
import Upkeep.Proofs.Once.Concurrent

/-!
# Protocols of calls that share slots

A protocol says what a call may ask while it is in a slot, and in which order slots are entered. When every
call keeps to it on its own, a lot is known about all of them together, whatever the schedule.

* `Protocol.Obeys`: what a call may still do, by the slots that it is in and what it asked there.
* `obeys_bind`, `obeys_once`: the rules by which a computation obeys a protocol.
* `Inv`: **what holds in all schedules**.
* `Inv.step`, `Inv.run`: a move keeps it, and so does a schedule.
* `Inv.asked_prefix`: what is asked in a slot is asked by one call, unless the slot may be left empty.
* `Inv.result`: what a call comes to, by what is in the slots at the end.
-/

namespace Upkeep.Once

variable {L Slot : Type} {Content : Slot → Type} {Q : Type} {A : Q → Type} {α β ε : Type}

/-- What calls may rely on and what they have to keep to: which answers there are, what a slot can be filled
with, what a call may ask in a slot, in order, which slots may be left empty after a question was asked,
in which order slots may be entered, and what a call comes to, by what it has seen in slots. -/
structure Protocol (L Slot : Type) (Content : Slot → Type) (Q : Type) (A : Q → Type) (α : Type) where
  allowed : (q : Q) → A q → Prop
  fits : (s : Slot) → Content s → Prop
  script : L → Slot → List Q
  fallible : Slot → Prop
  rank : Slot → Nat
  result : L → List ((s : Slot) × Content s) → α → Prop

/-- What has to hold in the end: of a result, of the slots that the call is in, with what it asked there,
and of the contents that it has seen. -/
abbrev Post (Slot : Type) (Content : Slot → Type) (Q β : Type) :=
  β → List (Slot × List Q) → List ((s : Slot) × Content s) → Prop

namespace Protocol

/-- What a call may still do, by the slots that it is in, with what it asked there, and by the contents
that it has seen. In the end `post` has to hold. -/
def Obeys (P : Protocol L Slot Content Q A α) (l : L) (post : Post Slot Content Q β) :
    Work Slot Content Q A β → List (Slot × List Q) → List ((s : Slot) × Content s) → Prop
  | .done b, held, seen => post b held seen
  | .ask (.enter s) next, held, seen =>
    (∀ h ∈ held, P.rank s < P.rank h.1) ∧
    (∀ content, P.fits s content →
      P.Obeys l post (next (some content)) held (⟨s, content⟩ :: seen)) ∧
    P.Obeys l post (next none) ((s, []) :: held) seen
  | .ask (.leave s content) next, held, seen =>
    ∃ asked rest, held = (s, asked) :: rest ∧ (content = none → asked = [] ∨ P.fallible s) ∧
      (∀ x, content = some x → P.fits s x) ∧
      P.Obeys l post (next ()) rest ((content.map (Sigma.mk s)).toList ++ seen)
  | .ask (.outside q) next, held, seen =>
    ∃ s asked rest, held = (s, asked) :: rest ∧ asked ++ [q] <+: P.script l s ∧
      ∀ a, P.allowed q a → P.Obeys l post (next a) ((s, asked ++ [q]) :: rest) seen

variable {P : Protocol L Slot Content Q A α} {l : L} {held : List (Slot × List Q)}
  {seen : List ((s : Slot) × Content s)} {s : Slot} {asked : List Q}

/-- A computation that obeys a protocol obeys it when there are fewer answers and less has to hold in the end. -/
theorem Obeys.weaken {R : (q : Q) → A q → Prop} {post post' : Post Slot Content Q β}
    {w : Work Slot Content Q A β} (h : P.Obeys l post w held seen) (hR : ∀ q a, R q a → P.allowed q a)
    (hpost : ∀ b held seen, post b held seen → post' b held seen) :
    Obeys { P with allowed := R } l post' w held seen := by
  induction w generalizing held seen with
  | done b => exact hpost b held seen h
  | ask q next ih =>
    cases q with
    | enter s => exact ⟨h.1, fun content hfits => ih _ (h.2.1 content hfits), ih _ h.2.2⟩
    | leave s content =>
      obtain ⟨asked, rest, hheld, hnone, hsome, hnext⟩ := h
      exact ⟨asked, rest, hheld, hnone, hsome, ih _ hnext⟩
    | outside q =>
      obtain ⟨s, asked, rest, hheld, hscript, hnext⟩ := h
      exact ⟨s, asked, rest, hheld, hscript, fun a ha => ih a (hnext a (hR q a ha))⟩

theorem Obeys.mono {post post' : Post Slot Content Q β} {w : Work Slot Content Q A β}
    (h : P.Obeys l post w held seen) (hpost : ∀ b held seen, post b held seen → post' b held seen) :
    P.Obeys l post' w held seen :=
  h.weaken (fun _ _ ha => ha) hpost

theorem Obeys.narrow {R : (q : Q) → A q → Prop} {post : Post Slot Content Q β} {w : Work Slot Content Q A β}
    (h : P.Obeys l post w held seen) (hR : ∀ q a, R q a → P.allowed q a) :
    Obeys { P with allowed := R } l post w held seen :=
  h.weaken hR fun _ _ _ hpost => hpost

/-- A computation in two parts obeys a protocol part by part. -/
theorem obeys_bind {γ : Type} {post : Post Slot Content Q γ}
    {w : Work Slot Content Q A β} {f : β → Work Slot Content Q A γ}
    (h : P.Obeys l (fun b held seen => P.Obeys l post (f b) held seen) w held seen) :
    P.Obeys l post (w >>= f) held seen := by
  show P.Obeys l post (w.bind f) held seen
  induction w generalizing held seen with
  | done b => exact h
  | ask q next ih =>
    cases q with
    | enter s => exact ⟨h.1, fun content hfits => ih _ (h.2.1 content hfits), ih _ h.2.2⟩
    | leave s content =>
      obtain ⟨asked, rest, hheld, hnone, hsome, hnext⟩ := h
      exact ⟨asked, rest, hheld, hnone, hsome, ih _ hnext⟩
    | outside q =>
      obtain ⟨s, asked, rest, hheld, hscript, hnext⟩ := h
      exact ⟨s, asked, rest, hheld, hscript, fun a ha => ih a (hnext a ha)⟩

/-- Work that is done once obeys a protocol if the work that fills the slot does. -/
theorem obeys_once {fill : Work Slot Content Q A (Except ε (Content s))}
    {post : Post Slot Content Q (Except ε (Content s))}
    (hrank : ∀ h ∈ held, P.rank s < P.rank h.1)
    (hfill : P.Obeys l (fun r held' seen' => ∃ asked, held' = (s, asked) :: held ∧
        (∀ e, r = .error e → (asked = [] ∨ P.fallible s) ∧ post (.error e) held seen') ∧
        ∀ content, r = .ok content → P.fits s content)
      fill ((s, []) :: held) seen)
    (hpost : ∀ content seen', P.fits s content → post (.ok content) held (⟨s, content⟩ :: seen')) :
    P.Obeys l post (once s fill) held seen := by
  refine ⟨hrank, fun content hfits => hpost content seen hfits, obeys_bind (hfill.mono ?_)⟩
  rintro r held' seen' ⟨asked, rfl, herror, hok⟩
  cases r with
  | error e =>
    obtain ⟨hempty, he⟩ := herror e rfl
    exact ⟨asked, held, rfl, fun _ => hempty, by simp, he⟩
  | ok content =>
    have hfits := hok content rfl
    exact ⟨asked, held, rfl, by simp, by simp [hfits], hpost content seen' hfits⟩

theorem obeys_once' {fill : Work Slot Content Q A (Content s)}
    {post : Post Slot Content Q (Content s)}
    (hrank : ∀ h ∈ held, P.rank s < P.rank h.1)
    (hfill : P.Obeys l (fun content held' _ => ∃ asked, held' = (s, asked) :: held ∧ P.fits s content)
      fill ((s, []) :: held) seen)
    (hpost : ∀ content seen', P.fits s content → post content held (⟨s, content⟩ :: seen')) :
    P.Obeys l post (once' s fill) held seen := by
  refine ⟨hrank, fun content hfits => hpost content seen hfits, obeys_bind (hfill.mono ?_)⟩
  rintro content held' seen' ⟨asked, rfl, hfits⟩
  exact ⟨asked, held, rfl, by simp, by simp [hfits], hpost content seen' hfits⟩

/-! ### What holds in all schedules -/

/-- What is left of a call keeps to a protocol. -/
def Follows (P : Protocol L Slot Content Q A α) (c : Call L Slot Content Q A α)
    (seen : List ((s : Slot) × Content s)) : Prop :=
  let ends := fun a held seen => held = [] ∧ P.result c.label seen a
  match c.activity with
  | .working w => P.Obeys c.label ends w c.held seen
  | .waiting q next => ∀ a, P.allowed q a → P.Obeys c.label ends (next a) c.held seen

variable [DecidableEq Slot]

/-- What a call that is on its way has: it keeps to the protocol, what it has seen is in the slots, and the
slots that it is in are its own. -/
structure Proceeds (P : Protocol L Slot Content Q A α) (st : System L Slot Content Q A α) (i : Nat)
    (c : Call L Slot Content Q A α) : Prop where
  follows : ∃ seen, P.Follows c seen ∧ ∀ x ∈ seen, st.cells x.1 = .full x.2
  own : ∀ h ∈ c.held, st.cells h.1 = .busy i ∧ h.2 <+: P.script c.label h.1 ∧
    (¬ P.fallible h.1 → st.asked h.1 = h.2)
  sorted : c.held.Pairwise fun h h' => P.rank h.1 < P.rank h'.1

/-- How a slot came to be what it is: nothing was asked in an empty one, a busy one has a call in it, and
what was asked in a full one follows the script of one call. -/
def Sound (P : Protocol L Slot Content Q A α) (st : System L Slot Content Q A α) (s : Slot) : Prop :=
  match st.cells s with
  | .empty => ¬ P.fallible s → st.asked s = []
  | .busy i => ∃ c, st.calls[i]? = some c ∧ s ∈ c.held.map (·.1)
  | .full content => P.fits s content ∧ (¬ P.fallible s → ∃ l, st.asked s <+: P.script l s)

section

variable {st : System L Slot Content Q A α} {s : Slot}

theorem sound_of_empty (hs : st.cells s = .empty) :
    P.Sound st s ↔ (¬ P.fallible s → st.asked s = []) := by
  rw [Sound, hs]

theorem sound_of_busy {i : Nat} (hs : st.cells s = .busy i) :
    P.Sound st s ↔ ∃ c, st.calls[i]? = some c ∧ s ∈ c.held.map (·.1) := by
  rw [Sound, hs]

theorem sound_of_full {content : Content s} (hs : st.cells s = .full content) :
    P.Sound st s ↔ P.fits s content ∧ (¬ P.fallible s → ∃ l, st.asked s <+: P.script l s) := by
  rw [Sound, hs]

end

/-- **What holds in all schedules.** -/
structure Inv (P : Protocol L Slot Content Q A α) (st : System L Slot Content Q A α) : Prop where
  calls : ∀ (i : Nat) c, st.calls[i]? = some c → P.Proceeds st i c
  slots : ∀ s, P.Sound st s
  log : ∀ e ∈ st.log, ∃ s l, e.1 = some s ∧ e.2 ∈ P.script l s

theorem inv_start (P : Protocol L Slot Content Q A α) : P.Inv .start := by
  constructor <;> simp [System.start, System.asked, Sound]

variable {body : L → Work Slot Content Q A α} {st st' : System L Slot Content Q A α} {m : Move L Q A}
  {i j : Nat} {c c' d : Call L Slot Content Q A α}

/-- Whatever is done in slots that are empty or belong to another call does not concern a call. -/
theorem Proceeds.of_frame (h : P.Proceeds st j d) (hij : j ≠ i)
    (hframe : ∀ t, st'.cells t = st.cells t ∧ st'.asked t = st.asked t ∨
      st.cells t = .empty ∨ st.cells t = .busy i) : P.Proceeds st' j d where
  follows := by
    obtain ⟨seen, hfollows, hseen⟩ := h.follows
    refine ⟨seen, hfollows, fun x hx => ?_⟩
    rcases hframe x.1 with ⟨hcell, -⟩ | hcell | hcell
    · rw [hcell, hseen x hx]
    · cases (hseen x hx).symm.trans hcell
    · cases (hseen x hx).symm.trans hcell
  own := by
    intro x hx
    obtain ⟨hbusy, hscript, hasked⟩ := h.own x hx
    rcases hframe x.1 with ⟨hcell, hsame⟩ | hcell | hcell
    · rw [hcell, hsame]
      exact ⟨hbusy, hscript, hasked⟩
    · cases hbusy.symm.trans hcell
    · cases hbusy.symm.trans hcell
      exact absurd rfl hij
  sorted := h.sorted

omit [DecidableEq Slot] in
theorem getElem?_set_iff {γ : Type} {l : List γ} {i j : Nat} {a b x : γ} (h : l[i]? = some a) :
    (l.set i b)[j]? = some x ↔ i = j ∧ b = x ∨ i ≠ j ∧ l[j]? = some x := by
  obtain ⟨hi, -⟩ := List.getElem?_eq_some_iff.1 h
  rw [List.getElem?_set]
  by_cases hij : i = j
  · subst hij
    simp [hi]
  · simp [hij]

/-- A slot stays what it is as long as nothing is done in it, and no call that is in it is lost. -/
theorem Sound.of_frame (h : P.Sound st s) (hcell : st'.cells s = st.cells s)
    (hasked : st'.asked s = st.asked s)
    (hheld : ∀ (i : Nat) c, st.cells s = .busy i → st.calls[i]? = some c → s ∈ c.held.map (·.1) →
      ∃ c', st'.calls[i]? = some c' ∧ s ∈ c'.held.map (·.1)) : P.Sound st' s := by
  cases hs : st.cells s with
  | empty => exact (sound_of_empty (hcell.trans hs)).2 (hasked ▸ (sound_of_empty hs).1 h)
  | full content => exact (sound_of_full (hcell.trans hs)).2 (hasked ▸ (sound_of_full hs).1 h)
  | busy i =>
    obtain ⟨c, hc, hmem⟩ := (sound_of_busy hs).1 h
    exact (sound_of_busy (hcell.trans hs)).2 (hheld i c hs hc hmem)

/-- A call that goes on may change the slots that are empty and those that it is in. -/
theorem Inv.advance (h : P.Inv st) (hc : st.calls[i]? = some c)
    (hcalls : st'.calls = st.calls.set i c')
    (hframe : ∀ t, st'.cells t = st.cells t ∧ st'.asked t = st.asked t ∧
        (t ∈ c.held.map (·.1) → t ∈ c'.held.map (·.1)) ∨
      (st.cells t = .empty ∨ st.cells t = .busy i) ∧ P.Sound st' t)
    (hcall : P.Proceeds st' i c') (hlog : ∀ e ∈ st'.log, ∃ s l, e.1 = some s ∧ e.2 ∈ P.script l s) :
    P.Inv st' where
  calls j d hd := by
    rw [hcalls, getElem?_set_iff hc] at hd
    rcases hd with ⟨rfl, rfl⟩ | ⟨hij, hd⟩
    · exact hcall
    · exact (h.calls j d hd).of_frame (Ne.symm hij) fun t =>
        (hframe t).imp (fun h => ⟨h.1, h.2.1⟩) And.left
  slots t := by
    rcases hframe t with ⟨hcell, hasked, hheld⟩ | ⟨-, hsound⟩
    · refine (h.slots t).of_frame hcell hasked fun j d _ hd hmem => ?_
      rw [hcalls]
      by_cases hij : i = j
      · subst hij
        obtain rfl := Option.some.inj (hc.symm.trans hd)
        exact ⟨c', (getElem?_set_iff hc).2 (.inl ⟨rfl, rfl⟩), hheld hmem⟩
      · exact ⟨d, (getElem?_set_iff hc).2 (.inr ⟨hij, hd⟩), hmem⟩
    · exact hsound
  log := hlog

/-- What a call has seen is not in a slot that is empty or busy. -/
theorem full_update {seen : List ((s : Slot) × Content s)} {x : Cell (Content s)}
    (hseen : ∀ y ∈ seen, st.cells y.1 = .full y.2) (hs : ∀ content, st.cells s ≠ .full content) :
    ∀ y ∈ seen, Function.update st.cells s x y.1 = .full y.2 := by
  intro y hy
  have hne : y.1 ≠ s := by
    rintro rfl
    exact hs y.2 (hseen y hy)
  rw [Function.update_of_ne hne, hseen y hy]

/-- A call that begins. -/
theorem Inv.call (h : P.Inv st) {l : L} {w : Work Slot Content Q A α}
    (hw : P.Follows ⟨l, [], .working w⟩ []) :
    P.Inv { st with calls := st.calls ++ [⟨l, [], .working w⟩] } where
  calls j d hd := by
    rw [List.getElem?_append] at hd
    split_ifs at hd
    · obtain ⟨hfollows, hown, hsorted⟩ := h.calls j d hd
      exact ⟨hfollows, hown, hsorted⟩
    · obtain rfl := List.mem_singleton.1 (List.mem_of_getElem? hd)
      exact ⟨⟨[], hw, by simp⟩, by simp, .nil⟩
  slots s := by
    refine (h.slots s).of_frame rfl rfl fun i c _ hc hmem => ⟨c, ?_, hmem⟩
    rw [List.getElem?_append_left (List.getElem?_eq_some_iff.1 hc).1, hc]
  log := h.log

/-- A call that goes on in the slots that it is in. -/
theorem Inv.go (h : P.Inv st) (hc : st.calls[i]? = some c) (hlabel : c'.label = c.label)
    (hheld : c'.held = c.held)
    (hfollows : ∃ seen, P.Follows c' seen ∧ ∀ x ∈ seen, st.cells x.1 = .full x.2) :
    P.Inv { st with calls := st.calls.set i c' } := by
  obtain ⟨-, hown, hsorted⟩ := h.calls i c hc
  refine h.advance hc rfl (fun t => .inl ⟨rfl, rfl, fun ht => hheld ▸ ht⟩) ?_ h.log
  rw [← hheld] at hown hsorted
  rw [← hlabel] at hown
  exact ⟨hfollows, hown, hsorted⟩

omit [DecidableEq Slot] in
/-- A slot that may be entered now is not one that was entered before. -/
theorem ne_of_rank_lt {t : Slot} (h : P.rank s < P.rank t) : t ≠ s := by
  rintro rfl
  exact Nat.lt_irrefl _ h

/-- A call that enters an empty slot. -/
theorem Inv.enter (h : P.Inv st) (hc : st.calls[i]? = some c) (hs : st.cells s = .empty)
    (hrank : ∀ x ∈ c.held, P.rank s < P.rank x.1) {w : Work Slot Content Q A α}
    {seen : List ((s : Slot) × Content s)}
    (hfollows : P.Follows ⟨c.label, (s, []) :: c.held, .working w⟩ seen)
    (hseen : ∀ x ∈ seen, st.cells x.1 = .full x.2) :
    P.Inv { st with
      cells := Function.update st.cells s (.busy i)
      calls := st.calls.set i ⟨c.label, (s, []) :: c.held, .working w⟩ } := by
  obtain ⟨-, hown, hsorted⟩ := h.calls i c hc
  refine h.advance hc rfl (fun t => ?_) ⟨⟨seen, hfollows, ?_⟩, ?_, ?_⟩ h.log
  · by_cases hts : t = s
    · subst hts
      exact .inr ⟨.inl hs, (sound_of_busy (Function.update_self ..)).2
        ⟨_, (getElem?_set_iff hc).2 (.inl ⟨rfl, rfl⟩), by simp⟩⟩
    · exact .inl ⟨Function.update_of_ne hts _ _, rfl, List.mem_cons_of_mem _⟩
  · exact full_update hseen (by simp [hs])
  · intro x hx
    rcases List.mem_cons.1 hx with rfl | hx
    · have hsound := h.slots s
      rw [Sound, hs] at hsound
      exact ⟨Function.update_self .., List.nil_prefix, hsound⟩
    · obtain ⟨hbusy, hrest⟩ := hown x hx
      exact ⟨(Function.update_of_ne (ne_of_rank_lt (hrank x hx)) _ _).trans hbusy, hrest⟩
  · exact List.pairwise_cons.2 ⟨hrank, hsorted⟩

/-- A call that leaves the slot that it entered last. -/
theorem Inv.leave (h : P.Inv st) (hc : st.calls[i]? = some c) {asked : List Q}
    {rest : List (Slot × List Q)} {content : Option (Content s)} (hheld : c.held = (s, asked) :: rest)
    (hnone : content = none → asked = [] ∨ P.fallible s) (hfits : ∀ x, content = some x → P.fits s x)
    {w : Work Slot Content Q A α} {seen : List ((s : Slot) × Content s)}
    (hfollows : P.Follows ⟨c.label, rest, .working w⟩ ((content.map (Sigma.mk s)).toList ++ seen))
    (hseen : ∀ x ∈ seen, st.cells x.1 = .full x.2) :
    P.Inv { st with
      cells := Function.update st.cells s (content.elim .empty .full)
      calls := st.calls.set i ⟨c.label, rest, .working w⟩ } := by
  obtain ⟨-, hown, hsorted⟩ := h.calls i c hc
  rw [hheld] at hown hsorted
  obtain ⟨hbusy, hscript, hasked⟩ := hown (s, asked) (by simp)
  obtain ⟨hrank, hsorted⟩ := List.pairwise_cons.1 hsorted
  refine h.advance hc rfl (fun t => ?_) ⟨⟨_, hfollows, ?_⟩, ?_, hsorted⟩ h.log
  · by_cases hts : t = s
    · subst hts
      refine .inr ⟨.inr hbusy, ?_⟩
      cases content with
      | none =>
        refine (sound_of_empty (Function.update_self ..)).2 fun hfallible => ?_
        rw [← (hnone rfl).resolve_right hfallible]
        exact hasked hfallible
      | some x =>
        exact (sound_of_full (Function.update_self ..)).2
          ⟨hfits x rfl, fun hfallible => ⟨c.label, hasked hfallible ▸ hscript⟩⟩
    · refine .inl ⟨Function.update_of_ne hts _ _, rfl, fun ht => ?_⟩
      rw [hheld] at ht
      exact (List.mem_cons.1 ht).resolve_left hts
  · intro x hx
    rcases List.mem_append.1 hx with hx | hx
    · obtain ⟨y, rfl, rfl⟩ := Option.map_eq_some_iff.1 (Option.mem_toList.1 hx)
      exact Function.update_self ..
    · exact full_update hseen (by simp [hbusy]) x hx
  · intro x hx
    obtain ⟨hbusy, hrest⟩ := hown x (List.mem_cons_of_mem _ hx)
    exact ⟨(Function.update_of_ne (ne_of_rank_lt (hrank x hx)) _ _).trans hbusy, hrest⟩

/-- A call that asks from the outside, in the slot that it entered last. -/
theorem Inv.ask (h : P.Inv st) (hc : st.calls[i]? = some c) {asked : List Q}
    {rest : List (Slot × List Q)} {q : Q} {next : A q → Work Slot Content Q A α}
    (hheld : c.held = (s, asked) :: rest) (hscript : asked ++ [q] <+: P.script c.label s)
    {seen : List ((s : Slot) × Content s)}
    (hfollows : P.Follows ⟨c.label, (s, asked ++ [q]) :: rest, .waiting q next⟩ seen)
    (hseen : ∀ x ∈ seen, st.cells x.1 = .full x.2) :
    P.Inv { st with
      calls := st.calls.set i ⟨c.label, (s, asked ++ [q]) :: rest, .waiting q next⟩
      log := st.log ++ [(some s, q)] } := by
  obtain ⟨-, hown, hsorted⟩ := h.calls i c hc
  rw [hheld] at hown hsorted
  obtain ⟨hbusy, -, hasked⟩ := hown (s, asked) (by simp)
  obtain ⟨hrank, hsorted⟩ := List.pairwise_cons.1 hsorted
  have hsame {t : Slot} (hts : t ≠ s) {calls : List (Call L Slot Content Q A α)} :
      System.asked ⟨st.cells, calls, st.log ++ [(some s, q)]⟩ t = st.asked t := by
    simp [System.asked, Ne.symm hts]
  refine h.advance hc rfl (fun t => ?_) ⟨⟨seen, hfollows, hseen⟩, ?_, ?_⟩ ?_
  · by_cases hts : t = s
    · subst hts
      refine .inr ⟨.inr hbusy, ?_⟩
      rw [Sound]
      dsimp only
      rw [hbusy]
      exact ⟨_, (getElem?_set_iff hc).2 (.inl ⟨rfl, rfl⟩), by simp⟩
    · refine .inl ⟨rfl, hsame hts, fun ht => ?_⟩
      rwa [hheld] at ht
  · intro x hx
    rcases List.mem_cons.1 hx with rfl | hx
    · refine ⟨hbusy, hscript, fun hfallible => ?_⟩
      show _ = asked ++ [q]
      rw [← show st.asked s = asked from hasked hfallible]
      simp [System.asked]
    · rw [hsame (ne_of_rank_lt (hrank x hx))]
      exact hown x (List.mem_cons_of_mem _ hx)
  · exact List.pairwise_cons.2 ⟨hrank, hsorted⟩
  · intro e he
    rcases List.mem_append.1 he with he | he
    · exact h.log e he
    · rw [List.mem_singleton.1 he]
      exact ⟨s, c.label, rfl, hscript.subset (by simp)⟩

/-- What every call starts with keeps to the protocol. -/
def Governs (P : Protocol L Slot Content Q A α) (body : L → Work Slot Content Q A α) : Prop :=
  ∀ l, P.Follows ⟨l, [], .working (body l)⟩ []

/-- The answer of a move is one that calls may rely on. -/
def Allows (P : Protocol L Slot Content Q A α) : Move L Q A → Prop
  | .receive _ answer => ∀ q, P.allowed q (answer q)
  | _ => True

omit [DecidableEq Slot] in
theorem forall_allows {moves : List (Move L Q A)}
    (h : ∀ i answer, .receive i answer ∈ moves → ∀ q, P.allowed q (answer q)) : ∀ m ∈ moves, P.Allows m := by
  intro m hm
  cases m with
  | call l | work i => trivial
  | receive i answer => exact h i answer hm

/-- **One move keeps what holds in all schedules.** -/
theorem Inv.step (h : P.Inv st) (hbody : P.Governs body) (hm : P.Allows m)
    (hstep : st.step body m = some st') : P.Inv st' := by
  cases advance_of_step hstep with
  | call l => exact h.call (hbody l)
  | enter hc hw hs =>
    obtain ⟨seen, hfollows, hseen⟩ := (h.calls _ _ hc).follows
    rw [Follows, hw] at hfollows
    exact h.enter hc hs hfollows.1 hfollows.2.2 hseen
  | @take i c s content next hc hw hs =>
    obtain ⟨seen, hfollows, hseen⟩ := (h.calls _ _ hc).follows
    rw [Follows, hw] at hfollows
    have hfits := ((sound_of_full hs).1 (h.slots s)).1
    exact h.go hc rfl rfl ⟨⟨s, content⟩ :: seen, hfollows.2.1 content hfits,
      List.forall_mem_cons.2 ⟨hs, hseen⟩⟩
  | leave hc hw =>
    obtain ⟨seen, hfollows, hseen⟩ := (h.calls _ _ hc).follows
    rw [Follows, hw] at hfollows
    obtain ⟨asked, rest, hheld, hnone, hfits, hnext⟩ := hfollows
    rw [hheld]
    exact h.leave hc hheld hnone hfits hnext hseen
  | ask hc hw =>
    obtain ⟨seen, hfollows, hseen⟩ := (h.calls _ _ hc).follows
    rw [Follows, hw] at hfollows
    obtain ⟨s, asked, rest, hheld, hscript, hnext⟩ := hfollows
    rw [hheld]
    exact h.ask hc hheld hscript hnext hseen
  | @receive i c q next answer hc hw =>
    obtain ⟨seen, hfollows, hseen⟩ := (h.calls _ _ hc).follows
    rw [Follows, hw] at hfollows
    exact h.go hc rfl rfl ⟨seen, hfollows (answer q) (hm q), hseen⟩

/-- **What holds in all schedules** whose answers are allowed. -/
theorem Inv.run {moves : List (Move L Q A)} (h : P.Inv st) (hbody : P.Governs body)
    (hmoves : ∀ m ∈ moves, P.Allows m) (hrun : st.run body moves = some st') : P.Inv st' := by
  induction moves generalizing st with
  | nil =>
    obtain rfl := Option.some.inj hrun
    exact h
  | cons m ms ih =>
    obtain ⟨st₁, hstep, hrest⟩ := Option.bind_eq_some_iff.1 hrun
    exact ih (h.step hbody (hmoves m (by simp)) hstep) (fun m hm => hmoves m (by simp [hm])) hrest

/-- What was asked in a slot follows the script of one call. -/
theorem Inv.asked_prefix (h : P.Inv st) (hs : ¬ P.fallible s) :
    st.asked s = [] ∨ ∃ l, st.asked s <+: P.script l s := by
  have hsound := h.slots s
  cases hcell : st.cells s with
  | empty => exact .inl ((sound_of_empty hcell).1 hsound hs)
  | full content => exact .inr (((sound_of_full hcell).1 hsound).2 hs)
  | busy i =>
    obtain ⟨c, hc, hmem⟩ := (sound_of_busy hcell).1 hsound
    obtain ⟨x, hx, rfl⟩ := List.mem_map.1 hmem
    obtain ⟨-, hscript, hasked⟩ := (h.calls i c hc).own x hx
    exact .inr ⟨c.label, hasked hs ▸ hscript⟩

/-- What is asked in a slot is asked as often as the script of one call has it. -/
theorem Inv.countP_log_le (h : P.Inv st) (hs : ¬ P.fallible s) (p : Q → Bool) {n : Nat}
    (hscript : ∀ l, (P.script l s).countP p ≤ n) :
    (st.log.countP fun e => e.1 = some s && p e.2) ≤ n := by
  have hcount : (st.log.countP fun e => e.1 = some s && p e.2) = (st.asked s).countP p := by
    rw [System.asked, List.countP_map, List.countP_filter]
    exact List.countP_congr fun e _ => by simp [and_comm]
  rw [hcount]
  rcases h.asked_prefix hs with hnil | ⟨l, hl⟩
  · simp [hnil]
  · exact Nat.le_trans hl.sublist.countP_le (hscript l)

/-- What a call that is over came to; it has left all slots. -/
theorem Inv.result (h : P.Inv st) {a : α} (hc : c ∈ st.calls) (ha : c.result? = some a) :
    c.held = [] ∧ ∃ seen, P.result c.label seen a ∧ ∀ x ∈ seen, st.cells x.1 = .full x.2 := by
  obtain ⟨i, hi⟩ := List.getElem?_of_mem hc
  obtain ⟨seen, hfollows, hseen⟩ := (h.calls i c hi).follows
  unfold Call.result? at ha
  split at ha
  · rename_i hw
    rw [Follows, hw] at hfollows
    obtain rfl := Option.some.inj ha
    exact ⟨hfollows.1, seen, hfollows.2, hseen⟩
  · cases ha

end Protocol

end Upkeep.Once
