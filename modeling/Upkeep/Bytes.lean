/-!
# Bytes and UTF-8

File contents and bodies are lists of bytes. A text is read from them by UTF-8; where they are not
well formed, each longest beginning of a character that breaks off counts as one fault.

* `Utf8.decode`: the characters of bytes, with their faults.
* `Bytes.text`: the text of bytes with U+FFFD for each fault.
* `Bytes.text?`: the text of bytes without fault.
-/

namespace Upkeep

/-- A sequence of bytes. -/
abbrev Bytes := List UInt8

namespace Utf8

/-- What the first byte of a character says: how many bytes follow, the least and the greatest value
that the next one may have, and the bits that it contributes. -/
structure Lead where
  following : Nat
  least : Nat
  greatest : Nat
  bits : Nat
  deriving DecidableEq, Inhabited

/-- The meaning of a byte as the first of a character. -/
def lead? (b : Nat) : Option Lead :=
  if b < 0x80 then some ⟨0, 0x80, 0xbf, b⟩
  else if b < 0xc2 then none
  else if b < 0xe0 then some ⟨1, 0x80, 0xbf, b - 0xc0⟩
  else if b = 0xe0 then some ⟨2, 0xa0, 0xbf, 0⟩
  else if b = 0xed then some ⟨2, 0x80, 0x9f, 0xd⟩
  else if b < 0xf0 then some ⟨2, 0x80, 0xbf, b - 0xe0⟩
  else if b = 0xf0 then some ⟨3, 0x90, 0xbf, 0⟩
  else if b < 0xf4 then some ⟨3, 0x80, 0xbf, b - 0xf0⟩
  else if b = 0xf4 then some ⟨3, 0x80, 0x8f, 4⟩
  else none

/-- The rest of a character of which `n` bytes are to follow, and the bytes after it. -/
def finish (bits : Nat) : Nat → Nat → Nat → Bytes → Option Char × Bytes
  | 0, _, _, r => (some (Char.ofNat bits), r)
  | _ + 1, _, _, [] => (none, [])
  | n + 1, least, greatest, b :: r =>
    if least ≤ b.toNat ∧ b.toNat ≤ greatest then
      finish (bits * 64 + (b.toNat - 0x80)) n 0x80 0xbf r
    else (none, b :: r)

theorem length_finish (bits n least greatest : Nat) (s : Bytes) :
    (finish bits n least greatest s).2.length ≤ s.length := by
  fun_induction finish bits n least greatest s with
  | case1 | case2 | case4 => simp
  | case3 _ _ _ _ _ _ _ ih => simp; omega

/-- The characters of bytes; none stands for a fault. -/
def decode : Bytes → List (Option Char)
  | [] => []
  | b :: r =>
    match lead? b.toNat with
    | none => none :: decode r
    | some l =>
      (finish l.bits l.following l.least l.greatest r).1
        :: decode (finish l.bits l.following l.least l.greatest r).2
termination_by s => s.length
decreasing_by
  · simp
  · have := length_finish l.bits l.following l.least l.greatest r
    simp
    omega

/-- The bytes of a text. -/
def encode (s : List Char) : Bytes := s.flatMap String.utf8EncodeChar

end Utf8

namespace Bytes

/-- The bytes of a text. -/
def ofText (s : String) : Bytes := Utf8.encode s.toList

/-- The text of bytes, with U+FFFD in the place of each fault. -/
def text (b : Bytes) : String :=
  String.ofList ((Utf8.decode b).map (·.getD (Char.ofNat 0xfffd)))

/-- The text of bytes that have no fault. -/
def text? (b : Bytes) : Option String := ((Utf8.decode b).mapM id).map String.ofList

end Bytes

end Upkeep
