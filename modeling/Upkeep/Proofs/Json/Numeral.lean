import Upkeep.Json.Number
import Upkeep.Proofs.Text.Cuts

/-!
# Numerals

A number is read to its end, and what follows it counts only in that it must not go on with the
number. So a numeral is one before any text that does not continue it.

* `EndsNumber`: a text that does not go on with a number.
* `number?_local`: **a numeral is one before any such text.**
-/

namespace Upkeep.Json

/-- A text that begins with no digit. -/
def EndsDigits (r : List Char) : Prop := ∀ c ∈ r.head?, c.isDigit = false

/-- A text that begins with no digit and no point. -/
def EndsFraction (r : List Char) : Prop := ∀ c ∈ r.head?, c.isDigit = false ∧ c ≠ '.'

/-- A text that does not go on with a number. -/
def EndsNumber (r : List Char) : Prop :=
  ∀ c ∈ r.head?, c.isDigit = false ∧ c ≠ '.' ∧ c ≠ 'e' ∧ c ≠ 'E'

theorem EndsFraction.endsDigits {r : List Char} (h : EndsFraction r) : EndsDigits r :=
  fun c hc => (h c hc).1

theorem EndsNumber.endsFraction {r : List Char} (h : EndsNumber r) : EndsFraction r :=
  fun c hc => ⟨(h c hc).1, (h c hc).2.1⟩

/-- The characters of numerals. -/
def isNumeral (c : Char) : Bool := c.isDigit || ['+', '-', '.', 'e', 'E'].contains c

theorem isNumeral_of_isDigit {c : Char} (h : c.isDigit = true) : isNumeral c = true := by
  simp [isNumeral, h]

theorem endsDigits_dropWhile (r : List Char) : EndsDigits (r.dropWhile Char.isDigit) :=
  (Text.dropWhile_eq_iff.1 rfl).1

theorem integerPart_local {s w r : List Char} (h : integerPart s = .ok (w, r)) :
    s = w ++ r ∧ w ≠ [] ∧ (∀ c ∈ w, c.isDigit = true) ∧ EndsDigits r ∧
      ∀ r', EndsDigits r' → integerPart (w ++ r') = .ok (w, r') := by
  unfold integerPart at h
  split at h
  · simp at h
  · split at h
    · split_ifs at h with hd
      obtain ⟨rfl, rfl⟩ := Prod.mk.inj (Except.ok.inj h)
      refine ⟨rfl, by simp, by simp, by simpa [EndsDigits] using hd, fun r' hr' => ?_⟩
      cases r' with
      | nil => rfl
      | cons c r' => simp [integerPart, hr' c (by simp)]
    · obtain ⟨rfl, rfl⟩ := Prod.mk.inj (Except.ok.inj h)
      refine ⟨rfl, by simp, by simp, by simp [EndsDigits], fun r' hr' => ?_⟩
      cases r' with
      | nil => rfl
      | cons c r' => simp [integerPart, hr' c (by simp)]
  · rename_i c t h0
    split_ifs at h with hc
    obtain ⟨rfl, rfl⟩ := Prod.mk.inj (Except.ok.inj h)
    have hall : ∀ d ∈ t.takeWhile Char.isDigit, d.isDigit = true := fun d hd =>
      List.mem_takeWhile_imp hd
    refine ⟨by simp, by simp, List.forall_mem_cons.2 ⟨hc, hall⟩, endsDigits_dropWhile t,
      fun r' hr' => ?_⟩
    obtain ⟨h1, h2⟩ := Text.takeWhile_run hall hr'
    rw [List.cons_append, integerPart]
    · simp [hc, h1, h2]
    · exact h0

theorem fractionPart_local {s f r : List Char} (h : fractionPart s = .ok (f, r)) :
    ∃ t, s = t ++ r ∧ (∀ c ∈ t, isNumeral c = true) ∧
      ∀ r', EndsFraction r' → fractionPart (t ++ r') = .ok (f, r') := by
  unfold fractionPart at h
  split at h
  · split at h
    · simp at h
    · rename_i c t
      split_ifs at h with hc
      obtain ⟨rfl, rfl⟩ := Prod.mk.inj (Except.ok.inj h)
      have hall : ∀ d ∈ t.takeWhile Char.isDigit, d.isDigit = true := fun d hd =>
        List.mem_takeWhile_imp hd
      have hnum : ∀ d ∈ c :: t.takeWhile Char.isDigit, isNumeral d = true :=
        List.forall_mem_cons.2 ⟨isNumeral_of_isDigit hc, fun d hd => isNumeral_of_isDigit (hall d hd)⟩
      refine ⟨'.' :: c :: t.takeWhile Char.isDigit, by simp,
        List.forall_mem_cons.2 ⟨by decide, hnum⟩, fun r' hr' => ?_⟩
      obtain ⟨h1, h2⟩ := Text.takeWhile_run hall hr'.endsDigits
      simp [fractionPart, hc, h1, h2]
  · rename_i hdot
    obtain ⟨rfl, rfl⟩ := Prod.mk.inj (Except.ok.inj h)
    refine ⟨[], rfl, by simp, fun r' hr' => ?_⟩
    rw [List.nil_append, fractionPart]
    rintro t rfl
    exact (hr' _ rfl).2 rfl

theorem exponentDigits_ends {e : Nat} {r : List Char} (h : EndsDigits r) :
    exponentDigits e r = .ok (e, r) := by
  cases r with
  | nil => rfl
  | cons c r => simp [exponentDigits, h c (by simp)]

theorem exponentDigits_ok {e v : Nat} {s r : List Char} (h : exponentDigits e s = .ok (v, r)) :
    ∃ t, s = t ++ r ∧ (∀ c ∈ t, c.isDigit = true) ∧
      ∀ r', EndsDigits r' → exponentDigits e (t ++ r') = .ok (v, r') := by
  induction s generalizing e with
  | nil =>
    obtain ⟨rfl, rfl⟩ := Prod.mk.inj (Except.ok.inj h)
    exact ⟨[], rfl, by simp, fun r' => exponentDigits_ends⟩
  | cons c s ih =>
    unfold exponentDigits at h
    split_ifs at h with hc hb
    · obtain ⟨t, rfl, ht, hl⟩ := ih h
      refine ⟨c :: t, rfl, List.forall_mem_cons.2 ⟨hc, ht⟩, fun r' hr' => ?_⟩
      rw [List.cons_append, exponentDigits, if_pos hc, if_pos hb]
      exact hl r' hr'
    · obtain ⟨rfl, rfl⟩ := Prod.mk.inj (Except.ok.inj h)
      exact ⟨[], rfl, by simp, fun r' => exponentDigits_ends⟩

theorem exponentDigits_error {e : Nat} {s r : List Char} (h : exponentDigits e s = .error r) :
    ∃ t, s = t ++ r ∧ (∀ c ∈ t, c.isDigit = true) ∧
      ∀ r', exponentDigits e (t ++ r') = .error r' := by
  induction s generalizing e with
  | nil => simp [exponentDigits] at h
  | cons c s ih =>
    unfold exponentDigits at h
    split_ifs at h with hc hb
    · obtain ⟨t, rfl, ht, hl⟩ := ih h
      refine ⟨c :: t, rfl, List.forall_mem_cons.2 ⟨hc, ht⟩, fun r' => ?_⟩
      rw [List.cons_append, exponentDigits, if_pos hc, if_pos hb]
      exact hl r'
    · obtain rfl := Except.error.inj h
      refine ⟨[c], rfl, by simpa using hc, fun r' => ?_⟩
      rw [List.singleton_append, exponentDigits, if_pos hc, if_neg hb]

/-- The sign of an exponent: whether it is a minus, and what follows it. -/
def exponentSign : List Char → Bool × List Char
  | '+' :: r => (false, r)
  | '-' :: r => (true, r)
  | r => (false, r)

/-- The digits of an exponent behind its sign. -/
def exponentTail (significand : Nat) (exponent : Int) (negative : Bool) :
    List Char → Except Fault (List Char)
  | [] => .error (.after .endInValue [])
  | d :: r =>
    if ! d.isDigit then .error (.into .badNumber (d :: r))
    else match exponentDigits 0 (d :: r) with
      | .ok (e, r) =>
        if beyondDoubles significand (if negative then exponent - e else exponent + e) then
          .error (.after .numberOutOfRange r)
        else .ok r
      | .error r =>
        if significand ≠ 0 ∧ ¬ negative then .error (.after .numberOutOfRange r)
        else .ok (r.dropWhile Char.isDigit)

theorem exponentPart_cons (n : Nat) (k : Int) (c : Char) (r : List Char) :
    exponentPart n k (c :: r) =
      if c = 'e' ∨ c = 'E' then exponentTail n k (exponentSign r).1 (exponentSign r).2
      else if beyondDoubles n k then .error (.after .numberOutOfRange (c :: r)) else .ok (c :: r) := by
  rfl

theorem exponentSign_local (r : List Char) :
    ∃ g, r = g ++ (exponentSign r).2 ∧ (∀ c ∈ g, isNumeral c = true) ∧
      ∀ d t, d.isDigit = true → exponentSign (g ++ d :: t) = ((exponentSign r).1, d :: t) := by
  unfold exponentSign
  split
  · exact ⟨['+'], rfl, by simp [isNumeral], fun d t _ => rfl⟩
  · exact ⟨['-'], rfl, by simp [isNumeral], fun d t _ => rfl⟩
  · refine ⟨[], rfl, by simp, fun d t hd => ?_⟩
    split
    · rename_i heq; obtain ⟨rfl, -⟩ := List.cons.inj heq; simp at hd
    · rename_i heq; obtain ⟨rfl, -⟩ := List.cons.inj heq; simp at hd
    · rfl

theorem exponentDigits_first {d : Char} (hd : d.isDigit = true) (s : List Char) :
    exponentDigits 0 (d :: s) = exponentDigits (d.toNat - 48) s := by
  have hb : 10 * 0 + (d.toNat - 48) < 0x80000000 := by
    have := (Char.isDigit_iff_toNat.1 hd).2
    have h9 : '9'.toNat = 57 := rfl
    omega
  rw [exponentDigits, if_pos hd, if_pos hb, Nat.mul_zero, Nat.zero_add]

theorem exponentTail_cons (n : Nat) (k : Int) (neg : Bool) {d : Char} (hd : d.isDigit = true)
    (s : List Char) :
    exponentTail n k neg (d :: s) = match exponentDigits (d.toNat - 48) s with
      | .ok (e, r) =>
        if beyondDoubles n (if neg then k - e else k + e) then
          .error (.after .numberOutOfRange r)
        else .ok r
      | .error r =>
        if n ≠ 0 ∧ ¬ neg then .error (.after .numberOutOfRange r)
        else .ok (r.dropWhile Char.isDigit) := by
  rw [exponentTail, exponentDigits_first hd]
  simp [hd]

theorem exponentTail_local {n : Nat} {k : Int} {neg : Bool} {s r : List Char}
    (h : exponentTail n k neg s = .ok r) :
    ∃ d t, s = d :: t ++ r ∧ (∀ c ∈ d :: t, c.isDigit = true) ∧
      ∀ r', EndsDigits r' → exponentTail n k neg (d :: t ++ r') = .ok r' := by
  cases s with
  | nil => simp [exponentTail] at h
  | cons d s =>
    have hd : d.isDigit = true := by
      by_contra hd
      rw [Bool.not_eq_true] at hd
      simp [exponentTail, hd] at h
    rw [exponentTail_cons n k neg hd] at h
    split at h
    · rename_i e r₁ he
      obtain ⟨t, rfl, ht, hl⟩ := exponentDigits_ok he
      cases hb : beyondDoubles n (if neg then k - e else k + e) with
      | true => simp only [hb, if_true] at h; simp at h
      | false =>
        simp only [hb] at h
        obtain rfl : r₁ = r := by simpa using h
        refine ⟨d, t, rfl, by simpa [hd] using ht, fun r' hr' => ?_⟩
        rw [List.cons_append, exponentTail_cons n k neg hd, hl r' hr']
        simp only [hb]
        simp
    · rename_i r₁ he
      obtain ⟨t, rfl, ht, hl⟩ := exponentDigits_error he
      split_ifs at h with hb
      · obtain rfl := Except.ok.inj h
        have hall : ∀ c ∈ r₁.takeWhile Char.isDigit, c.isDigit = true :=
          fun c hc => List.mem_takeWhile_imp hc
        -- the exponent has digits beyond those that were judged, and they are passed over
        refine ⟨d, t ++ r₁.takeWhile Char.isDigit, by simp,
          List.forall_mem_cons.2 ⟨hd, List.forall_mem_append.2 ⟨ht, hall⟩⟩, fun r' hr' => ?_⟩
        rw [List.cons_append, exponentTail_cons n k neg hd, List.append_assoc, hl]
        show (if n ≠ 0 ∧ ¬ neg = true then _ else _) = _
        rw [if_neg hb, (Text.takeWhile_run hall hr').2]

theorem exponentPart_local {n : Nat} {k : Int} {s r : List Char} (h : exponentPart n k s = .ok r) :
    ∃ t, s = t ++ r ∧ (∀ c ∈ t, isNumeral c = true) ∧ (t ≠ [] → EndsFraction (t ++ r)) ∧
      ∀ r', EndsNumber r' → exponentPart n k (t ++ r') = .ok r' := by
  have hnone (hb : beyondDoubles n k = false) (r' : List Char) (hr' : EndsNumber r') :
      exponentPart n k r' = .ok r' := by
    cases r' with
    | nil => simp [exponentPart, hb]
    | cons c r' =>
      obtain ⟨-, -, he, hE⟩ := hr' c rfl
      simp [exponentPart_cons, he, hE, hb]
  cases s with
  | nil =>
    by_cases hb : beyondDoubles n k = true
    · simp [exponentPart, hb] at h
    · obtain rfl : r = [] := by simpa [exponentPart, hb, eq_comm] using h
      exact ⟨[], rfl, by simp, by simp, hnone (by simpa using hb)⟩
  | cons c s =>
    rw [exponentPart_cons] at h
    split_ifs at h with hc hb
    · obtain ⟨g, hg, hgn, hgl⟩ := exponentSign_local s
      obtain ⟨d, t, hd, hall, hl⟩ := exponentTail_local h
      refine ⟨c :: g ++ d :: t, ?_, ?_, fun _ e he => ?_, fun r' hr' => ?_⟩
      · rw [hg, hd]; simp
      · intro e he
        rcases List.mem_append.1 he with he | he
        · rcases List.mem_cons.1 he with rfl | he
          · rcases hc with rfl | rfl <;> decide
          · exact hgn e he
        · exact isNumeral_of_isDigit (hall e he)
      · obtain rfl : c = e := by simpa using he
        rcases hc with rfl | rfl <;> decide
      · have hs := hgl d (t ++ r') (hall d (by simp))
        have ht := hl r' hr'.endsFraction.endsDigits
        rw [List.append_assoc, List.cons_append, exponentPart_cons, if_pos hc, List.cons_append, hs]
        exact ht
    · obtain rfl := Except.ok.inj h
      exact ⟨[], rfl, by simp, by simp, hnone (by simpa using hb)⟩

theorem afterNumber_local {s r : List Char} (h : afterNumber s = .ok r) :
    ∃ d t, s = d :: t ++ r ∧ d.isDigit = true ∧ (∀ c ∈ d :: t, isNumeral c = true) ∧
      ∀ r', EndsNumber r' → afterNumber (d :: t ++ r') = .ok r' := by
  simp only [afterNumber, bind, Except.bind] at h
  split at h
  · simp at h
  rename_i wr hw
  obtain ⟨w, r₁⟩ := wr
  obtain ⟨rfl, hwne, hwd, hwr, hwl⟩ := integerPart_local hw
  simp only at h
  split at h
  · simp at h
  rename_i fr hf
  obtain ⟨f, r₂⟩ := fr
  obtain ⟨u, rfl, hun, hul⟩ := fractionPart_local hf
  obtain ⟨v, rfl, hvn, hvf, hvl⟩ := exponentPart_local h
  obtain ⟨d, w', rfl⟩ := List.exists_cons_of_ne_nil hwne
  -- a part that is not there leaves what follows it to the part before
  have hdig {r' : List Char} (hr' : EndsDigits r') : EndsDigits ((u ++ v) ++ r') := by
    cases huv : u ++ v with
    | nil => exact hr'
    | cons c l =>
      intro e he
      refine hwr e ?_
      rw [← List.append_assoc, huv]
      exact he
  have hfrac {r' : List Char} (hr' : EndsFraction r') : EndsFraction (v ++ r') := by
    cases v with
    | nil => exact hr'
    | cons c v => exact fun e he => hvf (by simp) e he
  refine ⟨d, w' ++ (u ++ v), by simp, hwd d (by simp), ?_, fun r' hr' => ?_⟩
  · intro c hc
    rw [← List.cons_append] at hc
    rcases List.mem_append.1 hc with hc | hc
    · exact isNumeral_of_isDigit (hwd c hc)
    · exact (List.mem_append.1 hc).elim (hun c) (hvn c)
  · have h1 := hwl _ (hdig hr'.endsFraction.endsDigits)
    have h2 := hul _ (hfrac hr'.endsFraction)
    have heq : d :: (w' ++ (u ++ v)) ++ r' = (d :: w') ++ (u ++ v ++ r') := by simp
    rw [heq]
    simp only [afterNumber, bind, Except.bind, h1]
    rw [List.append_assoc, h2]
    exact hvl r' hr'

/-- A numeral, and that it is one wherever it stands. -/
structure IsNumber (l : List Char) : Prop where
  chars : ∀ c ∈ l, isNumeral c = true
  first : ∃ c t, l = c :: t ∧ (c = '-' ∨ c.isDigit = true)
  read : ∀ r, EndsNumber r → number? (l ++ r) = .ok (l, r)

theorem number?_minus {s r : List Char} (h : afterNumber s = .ok r) :
    number? ('-' :: s) = .ok (('-' :: s).take (s.length + 1 - r.length), r) := by
  simp [number?, h, bind, Except.bind, pure, Except.pure]

theorem number?_digit {d : Char} {s r : List Char} (hd : d.isDigit = true)
    (h : afterNumber (d :: s) = .ok r) :
    number? (d :: s) = .ok ((d :: s).take (s.length + 1 - r.length), r) := by
  have hm : d ≠ '-' := by rintro rfl; simp at hd
  unfold number?
  split
  · rename_i heq
    exact absurd (List.cons.inj heq).1 hm
  · simp [h, bind, Except.bind, pure, Except.pure]

theorem take_length_sub (l r : List Char) : (l ++ r).take ((l ++ r).length - r.length) = l := by
  simp

/-- **A numeral is one before any text that does not go on with it.** -/
theorem number?_local {s l r : List Char} (h : number? s = .ok (l, r)) :
    s = l ++ r ∧ IsNumber l := by
  by_cases hs : ∃ t, s = '-' :: t
  · obtain ⟨t, rfl⟩ := hs
    cases ha : afterNumber t with
    | error e => simp [number?, ha, bind, Except.bind] at h
    | ok r' =>
      obtain ⟨d, u, rfl, hd, hn, hl⟩ := afterNumber_local ha
      have hnum {r : List Char} (h : afterNumber (d :: (u ++ r)) = .ok r) :
          number? ('-' :: d :: (u ++ r)) = .ok ('-' :: d :: u, r) := by
        rw [number?_minus h]
        exact congrArg (fun x => Except.ok (x, r)) (take_length_sub ('-' :: d :: u) r)
      rw [List.cons_append, hnum ha] at h
      obtain ⟨rfl, rfl⟩ := Prod.mk.inj (Except.ok.inj h)
      exact ⟨rfl, List.forall_mem_cons.2 ⟨by decide, hn⟩, ⟨'-', d :: u, rfl, .inl rfl⟩,
        fun r₀ hr₀ => hnum (hl r₀ hr₀)⟩
  · cases ha : afterNumber s with
    | error e =>
      unfold number? at h
      split at h
      · exact absurd ⟨_, rfl⟩ hs
      · simp [ha, bind, Except.bind] at h
    | ok r' =>
      obtain ⟨d, u, rfl, hd, hn, hl⟩ := afterNumber_local ha
      have hnum {r : List Char} (h : afterNumber (d :: (u ++ r)) = .ok r) :
          number? (d :: (u ++ r)) = .ok (d :: u, r) := by
        rw [number?_digit hd h]
        exact congrArg (fun x => Except.ok (x, r)) (take_length_sub (d :: u) r)
      rw [List.cons_append, hnum ha] at h
      obtain ⟨rfl, rfl⟩ := Prod.mk.inj (Except.ok.inj h)
      exact ⟨rfl, hn, ⟨d, u, rfl, .inr hd⟩, fun r₀ hr₀ => hnum (hl r₀ hr₀)⟩

end Upkeep.Json
