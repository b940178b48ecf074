import Upkeep.Json.Parser
import Upkeep.Proofs.Patch.Place

/-!
# String literals

What stands between the quotes of a string literal, as a grammar: plain characters and escapes. The
reader accepts exactly this, and a literal of the grammar is also a literal to a patch, so that the two
always agree on where a value ends.

* `Literal raw text`: `raw` is a way to write `text` between quotes.
* `stringLiteral_eq_ok`: the reader follows the grammar.
* `literal_encode`: the usual way to write a text.
* `Literal.isBody`: a patch sees the same literal.
-/

namespace Upkeep

theorem Except.map_eq_ok {ε α β : Type} {f : α → β} {x : Except ε α} {b : β} :
    x.map f = .ok b ↔ ∃ a, x = .ok a ∧ f a = b := by
  cases x <;> simp [Except.map]

theorem Except.map_eq_error {ε α β : Type} {f : α → β} {x : Except ε α} {e : ε} :
    x.map f = .error e ↔ x = .error e := by
  cases x <;> simp [Except.map]

namespace Json

open Text

/-- The escapes of one letter: the letter and its character. -/
def shortEscapes : List (Char × Char) :=
  [('"', '"'), ('\\', '\\'), ('/', '/'), ('b', '\x08'), ('f', '\x0c'), ('n', '\n'), ('r', '\r'),
   ('t', '\t')]

/-- Four hexadecimal digits and their number. -/
def IsHexFour (q : List Char) (n : Nat) : Prop :=
  ∃ a b c d x y z w, q = [a, b, c, d] ∧ hexValue? a = some x ∧ hexValue? b = some y ∧
    hexValue? c = some z ∧ hexValue? d = some w ∧ n = ((x * 16 + y) * 16 + z) * 16 + w

/-- What follows the backslash of an escape, and the character it stands for. -/
inductive Escape : List Char → Char → Prop where
  | short {c x : Char} (h : (c, x) ∈ shortEscapes) : Escape [c] x
  | unit {q : List Char} {n : Nat} (h : IsHexFour q n) (hn : n < 0xd800 ∨ 0xdfff < n) :
      Escape ('u' :: q) (Char.ofNat n)
  /-- A character beyond the basic plane is written as a pair. -/
  | pair {q q' : List Char} {n m : Nat} (h : IsHexFour q n) (h' : IsHexFour q' m)
      (hn : 0xd800 ≤ n ∧ n ≤ 0xdbff) (hm : 0xdc00 ≤ m ∧ m ≤ 0xdfff) :
      Escape ('u' :: q ++ '\\' :: 'u' :: q') (Char.ofNat (0x10000 + (n - 0xd800) * 0x400 + (m - 0xdc00)))

/-- A way to write a text between quotes. -/
inductive Literal : List Char → List Char → Prop where
  | nil : Literal [] []
  | plain {c : Char} {raw text : List Char} (hq : c ≠ '"') (hs : c ≠ '\\') (hc : 32 ≤ c.toNat)
      (h : Literal raw text) : Literal (c :: raw) (c :: text)
  | escape {e raw text : List Char} {x : Char} (he : Escape e x) (h : Literal raw text) :
      Literal ('\\' :: e ++ raw) (x :: text)

/-! ### The reader follows the grammar -/

theorem hexFour_eq_ok {s r : List Char} {n : Nat} :
    hexFour s = .ok (n, r) ↔ ∃ q, IsHexFour q n ∧ s = q ++ r := by
  constructor
  · intro h
    unfold hexFour at h
    split at h
    · rename_i a b c d t
      split at h
      · rename_i x y z w ha hb hc hd
        obtain ⟨rfl, rfl⟩ := Prod.mk.inj (Except.ok.inj h)
        exact ⟨[a, b, c, d], ⟨a, b, c, d, x, y, z, w, rfl, ha, hb, hc, hd, rfl⟩, rfl⟩
      · simp at h
    · simp at h
  · rintro ⟨_, ⟨a, b, c, d, x, y, z, w, rfl, ha, hb, hc, hd, rfl⟩, rfl⟩
    simp [hexFour, ha, hb, hc, hd]

theorem unicodeEscape_eq_ok {s r : List Char} {x : Char} :
    unicodeEscape s = .ok (x, r) ↔ ∃ e, Escape ('u' :: e) x ∧ s = e ++ r := by
  constructor
  · intro h
    cases hf : hexFour s with
    | error e => simp [unicodeEscape, hf, bind, Except.bind] at h
    | ok nr =>
      obtain ⟨n, r₁⟩ := nr
      obtain ⟨q, hq, rfl⟩ := hexFour_eq_ok.1 hf
      simp only [unicodeEscape, hf, bind, Except.bind] at h
      split_ifs at h with h1 h2
      · obtain ⟨rfl, rfl⟩ := Prod.mk.inj (Except.ok.inj h)
        exact ⟨q, .unit hq (by omega), rfl⟩
      · split at h
        · simp at h
        · simp at h
        · rename_i r₂
          cases hf' : hexFour r₂ with
          | error e => simp [hf'] at h
          | ok mr =>
            obtain ⟨m, r₃⟩ := mr
            obtain ⟨q', hq', rfl⟩ := hexFour_eq_ok.1 hf'
            simp only [hf'] at h
            split_ifs at h with h3
            obtain ⟨rfl, rfl⟩ := Prod.mk.inj (Except.ok.inj h)
            exact ⟨q ++ '\\' :: 'u' :: q', .pair hq hq' (by omega) (by omega), by simp⟩
        · simp at h
        · simp at h
  · rintro ⟨e, he, rfl⟩
    generalize hw : 'u' :: e = w at he
    cases he with
    | short h =>
      obtain ⟨rfl, rfl⟩ := List.cons.inj hw
      simp [shortEscapes] at h
    | unit hq hn =>
      obtain ⟨-, rfl⟩ := List.cons.inj hw
      simp only [unicodeEscape, hexFour_eq_ok.2 ⟨_, hq, rfl⟩, bind, Except.bind]
      rw [if_neg (by omega), if_pos (by omega)]
    | @pair q q' n m hq hq' hn hm =>
      obtain rfl : e = q ++ '\\' :: 'u' :: q' := (List.cons.inj hw).2
      rw [List.append_assoc]
      simp only [unicodeEscape, hexFour_eq_ok.2 ⟨_, hq, rfl⟩, bind, Except.bind]
      rw [if_neg (by omega), if_neg (by omega)]
      simp only [List.cons_append, hexFour_eq_ok.2 ⟨_, hq', rfl⟩]
      rw [if_neg (by omega)]

theorem escape_eq_ok {s r : List Char} {x : Char} :
    escape s = .ok (x, r) ↔ ∃ e, Escape e x ∧ s = e ++ r := by
  constructor
  · intro h
    unfold escape at h
    split at h
    · simp at h
    · rename_i c t
      split_ifs at h with h1 h2 h3 h4 h5 h6 h7
      · obtain ⟨rfl, rfl⟩ := Prod.mk.inj (Except.ok.inj h)
        exact ⟨[c], .short (by rcases h1 with rfl | rfl | rfl <;> decide), rfl⟩
      -- the letters of the control characters
      iterate 5
        · obtain ⟨rfl, rfl⟩ := Prod.mk.inj (Except.ok.inj h)
          exact ⟨[c], .short (by subst c; decide), rfl⟩
      · obtain ⟨e, he, rfl⟩ := unicodeEscape_eq_ok.1 h
        exact ⟨'u' :: e, he, by rw [h7]; rfl⟩
  · rintro ⟨e, he, rfl⟩
    cases he with
    | short h =>
      simp only [shortEscapes, List.mem_cons, Prod.mk.injEq, List.not_mem_nil, or_false] at h
      rcases h with ⟨rfl, rfl⟩ | ⟨rfl, rfl⟩ | ⟨rfl, rfl⟩ | ⟨rfl, rfl⟩ | ⟨rfl, rfl⟩ | ⟨rfl, rfl⟩ |
        ⟨rfl, rfl⟩ | ⟨rfl, rfl⟩ <;> simp [escape]
    | unit hq hn =>
      simpa [escape] using unicodeEscape_eq_ok.2 ⟨_, .unit hq hn, rfl⟩
    | pair hq hq' hn hm =>
      simpa [escape] using unicodeEscape_eq_ok.2 ⟨_, .pair hq hq' hn hm, rfl⟩

theorem stringBody_sound {n : Nat} {s xs r : List Char} (h : stringBody n s = .ok (xs, r)) :
    ∃ raw, Literal raw xs ∧ s = raw ++ '"' :: r := by
  induction n generalizing s xs r with
  | zero => simp [stringBody] at h
  | succ n ih =>
    cases s with
    | nil => simp [stringBody] at h
    | cons c t =>
      unfold stringBody at h
      split_ifs at h with hq hs hc
      · obtain ⟨rfl, rfl⟩ := Prod.mk.inj (Except.ok.inj h)
        exact ⟨[], .nil, by rw [hq]; rfl⟩
      · split at h
        · simp at h
        · rename_i x t' he
          obtain ⟨e, hx, rfl⟩ := escape_eq_ok.1 he
          obtain ⟨⟨ys, r'⟩, hb, hr⟩ := Except.map_eq_ok.1 h
          obtain ⟨rfl, rfl⟩ := Prod.mk.inj hr
          obtain ⟨raw, hraw, rfl⟩ := ih hb
          exact ⟨'\\' :: e ++ raw, .escape hx hraw, by simp [hs]⟩
      · obtain ⟨⟨ys, r'⟩, hb, hr⟩ := Except.map_eq_ok.1 h
        obtain ⟨rfl, rfl⟩ := Prod.mk.inj hr
        obtain ⟨raw, hraw, rfl⟩ := ih hb
        exact ⟨c :: raw, .plain hq hs (by omega) hraw, rfl⟩

theorem stringBody_complete {raw xs : List Char} (h : Literal raw xs) (r : List Char) :
    ∀ n, raw.length < n → stringBody n (raw ++ '"' :: r) = .ok (xs, r) := by
  induction h with
  | nil =>
    intro n hn
    obtain ⟨m, rfl⟩ : ∃ m, n = m + 1 := ⟨n - 1, by omega⟩
    simp [stringBody]
  | @plain c raw text hq hs hc _ ih =>
    intro n hn
    obtain ⟨m, rfl⟩ : ∃ m, n = m + 1 := ⟨n - 1, by omega⟩
    simp only [List.length_cons] at hn
    simp [stringBody, hq, hs, show ¬ c.toNat < 32 by omega, ih m (by omega), Except.map]
  | @escape e raw text x he _ ih =>
    intro n hn
    obtain ⟨m, rfl⟩ : ∃ m, n = m + 1 := ⟨n - 1, by omega⟩
    simp only [List.length_cons, List.length_append] at hn
    have hr := escape_eq_ok.2 ⟨e, he, (rfl : e ++ (raw ++ '"' :: r) = _)⟩
    simp [stringBody, hr, ih m (by omega), Except.map]

/-- **The reader follows the grammar.** -/
theorem stringLiteral_eq_ok {s r : List Char} {t : String} :
    stringLiteral s = .ok (t, r) ↔ ∃ raw, Literal raw t.toList ∧ s = raw ++ '"' :: r := by
  unfold stringLiteral
  constructor
  · intro h
    obtain ⟨⟨xs, r'⟩, hb, hr⟩ := Except.map_eq_ok.1 h
    obtain ⟨rfl, rfl⟩ := Prod.mk.inj hr
    simpa using stringBody_sound hb
  · rintro ⟨raw, h, rfl⟩
    rw [stringBody_complete h r _ (by rw [List.length_append]; omega)]
    simp [Except.map]

/-! ### The usual way to write a text -/

theorem hexValue?_hexDigit : ∀ n < 16, hexValue? (hexDigit n) = some n := by decide

theorem encode_cons (c : Char) (s : List Char) : encode (c :: s) = encodeChar c ++ encode s := by
  simp [encode]

theorem literal_encodeChar (c : Char) {raw text : List Char} (h : Literal raw text) :
    Literal (encodeChar c ++ raw) (c :: text) := by
  have hshort {l : Char} (hl : (l, c) ∈ shortEscapes) : Literal (['\\', l] ++ raw) (c :: text) :=
    .escape (.short hl) h
  unfold encodeChar
  split_ifs with h1 h2 h3 h4 h5 h6 h7 h8
  iterate 7 · exact hshort (by subst c; decide)
  · -- a control character without a letter of its own
    have hx : IsHexFour ['0', '0', hexDigit (c.toNat / 16), hexDigit (c.toNat % 16)] c.toNat :=
      ⟨_, _, _, _, 0, 0, _, _, rfl, by decide, by decide,
        hexValue?_hexDigit _ (by omega), hexValue?_hexDigit _ (by omega), by omega⟩
    have he := Escape.unit hx (by omega)
    rw [Char.ofNat_toNat] at he
    exact .escape he h
  · exact .plain h1 h2 (by omega) h

/-- **The usual way to write a text** is one. -/
theorem literal_encode (s : List Char) : Literal (encode s) s := by
  induction s with
  | nil => exact .nil
  | cons c s ih => rw [encode_cons]; exact literal_encodeChar c ih

/-! ### A patch sees the same literal -/

theorem plain_of_hexValue? {c : Char} {n : Nat} (h : hexValue? c = some n) : c ≠ '"' ∧ c ≠ '\\' := by
  constructor <;> (rintro rfl; simp [hexValue?] at h)

theorem IsHexFour.plain {q : List Char} {n : Nat} (h : IsHexFour q n) :
    ∀ c ∈ q, c ≠ '"' ∧ c ≠ '\\' := by
  obtain ⟨a, b, c, d, x, y, z, w, rfl, ha, hb, hc, hd, -⟩ := h
  intro e he
  simp only [List.mem_cons, List.not_mem_nil, or_false] at he
  rcases he with rfl | rfl | rfl | rfl
  · exact plain_of_hexValue? ha
  · exact plain_of_hexValue? hb
  · exact plain_of_hexValue? hc
  · exact plain_of_hexValue? hd

/-- An escape with a quote is the escape of a quote. -/
theorem Escape.of_quote_mem {e : List Char} {x : Char} (h : Escape e x) (hq : '"' ∈ e) :
    e = ['"'] ∧ x = '"' := by
  -- the digits of the longer escapes are no quotes
  cases h with
  | @short c _ hc =>
    obtain rfl : '"' = c := by simpa using hq
    exact ⟨rfl, by simpa [shortEscapes] using hc⟩
  | unit h =>
    rcases List.mem_cons.1 hq with hq | hq
    · exact absurd hq (by decide)
    · exact absurd rfl (h.plain _ hq).1
  | pair h h' =>
    rcases List.mem_append.1 hq with hq | hq
    · rcases List.mem_cons.1 hq with hq | hq
      · exact absurd hq (by decide)
      · exact absurd rfl (h.plain _ hq).1
    · rcases List.mem_cons.1 hq with hq | hq
      · exact absurd hq (by decide)
      rcases List.mem_cons.1 hq with hq | hq
      · exact absurd hq (by decide)
      · exact absurd rfl (h'.plain _ hq).1

theorem literal?_append_plain {q : List Char} (hq : ∀ c ∈ q, c ≠ '"' ∧ c ≠ '\\') (r : List Char) :
    Patch.literal? (q ++ r) = (Patch.literal? r).map fun (b, r) => (q ++ b, r) := by
  induction q with
  | nil => simp
  | cons c q ih =>
    obtain ⟨h1, h2⟩ := hq c (by simp)
    simp [Patch.literal?_plain h1 h2, ih fun d hd => hq d (by simp [hd]), Function.comp_def]

/-- An escape is passed over as a whole. -/
theorem Escape.literal? {e : List Char} {x : Char} (h : Escape e x) (r : List Char) :
    Patch.literal? ('\\' :: e ++ r) =
      (Patch.literal? r).map fun (b, r) => ('\\' :: e ++ b, r) := by
  cases h with
  | @short c x h =>
    have hn : c ≠ '\n' := by rintro rfl; simp [shortEscapes] at h
    simp [Patch.literal?_escape hn]
  | unit hq _ =>
    simp [Patch.literal?_escape, literal?_append_plain hq.plain, Function.comp_def]
  | pair hq hq' _ _ =>
    simp [Patch.literal?_escape, literal?_append_plain hq.plain, literal?_append_plain hq'.plain,
      Function.comp_def]

/-- **A patch sees the same literal.** -/
theorem Literal.isBody {raw text : List Char} (h : Literal raw text) : Patch.IsBody raw := by
  intro r
  induction h with
  | nil => exact Patch.literal?_quote r
  | plain hq hs _ _ ih => simp [Patch.literal?_plain hq hs, ih]
  | escape he _ ih =>
    rw [List.append_assoc, he.literal?, ih]
    simp

end Json

end Upkeep
