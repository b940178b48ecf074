import Upkeep.Bytes

/-!
# SHA-512

The digest of a sequence of bytes: the message is padded to whole blocks of 128 bytes, and each block
is worked into a state of eight words in eighty rounds.

* `Sha512.digest`: the sixty-four bytes of the digest.
* `Sha512.hex`: the digest in lower-case hexadecimal.
-/

namespace Upkeep.Sha512

/-- The constants of the rounds: the first 64 bits of the fractions of the cube roots of the first
eighty primes. -/
def roundConstants : List UInt64 := [
  0x428a2f98d728ae22, 0x7137449123ef65cd, 0xb5c0fbcfec4d3b2f, 0xe9b5dba58189dbbc,
  0x3956c25bf348b538, 0x59f111f1b605d019, 0x923f82a4af194f9b, 0xab1c5ed5da6d8118,
  0xd807aa98a3030242, 0x12835b0145706fbe, 0x243185be4ee4b28c, 0x550c7dc3d5ffb4e2,
  0x72be5d74f27b896f, 0x80deb1fe3b1696b1, 0x9bdc06a725c71235, 0xc19bf174cf692694,
  0xe49b69c19ef14ad2, 0xefbe4786384f25e3, 0x0fc19dc68b8cd5b5, 0x240ca1cc77ac9c65,
  0x2de92c6f592b0275, 0x4a7484aa6ea6e483, 0x5cb0a9dcbd41fbd4, 0x76f988da831153b5,
  0x983e5152ee66dfab, 0xa831c66d2db43210, 0xb00327c898fb213f, 0xbf597fc7beef0ee4,
  0xc6e00bf33da88fc2, 0xd5a79147930aa725, 0x06ca6351e003826f, 0x142929670a0e6e70,
  0x27b70a8546d22ffc, 0x2e1b21385c26c926, 0x4d2c6dfc5ac42aed, 0x53380d139d95b3df,
  0x650a73548baf63de, 0x766a0abb3c77b2a8, 0x81c2c92e47edaee6, 0x92722c851482353b,
  0xa2bfe8a14cf10364, 0xa81a664bbc423001, 0xc24b8b70d0f89791, 0xc76c51a30654be30,
  0xd192e819d6ef5218, 0xd69906245565a910, 0xf40e35855771202a, 0x106aa07032bbd1b8,
  0x19a4c116b8d2d0c8, 0x1e376c085141ab53, 0x2748774cdf8eeb99, 0x34b0bcb5e19b48a8,
  0x391c0cb3c5c95a63, 0x4ed8aa4ae3418acb, 0x5b9cca4f7763e373, 0x682e6ff3d6b2b8a3,
  0x748f82ee5defb2fc, 0x78a5636f43172f60, 0x84c87814a1f0ab72, 0x8cc702081a6439ec,
  0x90befffa23631e28, 0xa4506cebde82bde9, 0xbef9a3f7b2c67915, 0xc67178f2e372532b,
  0xca273eceea26619c, 0xd186b8c721c0c207, 0xeada7dd6cde0eb1e, 0xf57d4f7fee6ed178,
  0x06f067aa72176fba, 0x0a637dc5a2c898a6, 0x113f9804bef90dae, 0x1b710b35131c471b,
  0x28db77f523047d84, 0x32caab7b40c72493, 0x3c9ebe0a15c9bebc, 0x431d67c49c100d4c,
  0x4cc5d4becb3e42b6, 0x597f299cfc657e2a, 0x5fcb6fab3ad6faec, 0x6c44198c4a475817]

/-- The eight words that the rounds work on. -/
structure State where
  a : UInt64
  b : UInt64
  c : UInt64
  d : UInt64
  e : UInt64
  f : UInt64
  g : UInt64
  h : UInt64
  deriving DecidableEq, Inhabited

/-- The state before the first block: the first 64 bits of the fractions of the square roots of the
first eight primes. -/
def State.initial : State := ⟨
  0x6a09e667f3bcc908, 0xbb67ae8584caa73b, 0x3c6ef372fe94f82b, 0xa54ff53a5f1d36f1,
  0x510e527fade682d1, 0x9b05688c2b3e6c1f, 0x1f83d9abfb41bd6b, 0x5be0cd19137e2179⟩

/-- The sum of two states, word by word. -/
def State.add (s t : State) : State :=
  ⟨s.a + t.a, s.b + t.b, s.c + t.c, s.d + t.d, s.e + t.e, s.f + t.f, s.g + t.g, s.h + t.h⟩

/-- The words of a state. -/
def State.words (s : State) : List UInt64 := [s.a, s.b, s.c, s.d, s.e, s.f, s.g, s.h]

/-- A word turned to the right by `n` bits, fewer than 64 and more than none. -/
def rotate (w : UInt64) (n : UInt64) : UInt64 := (w >>> n) ||| (w <<< (64 - n))

/-- One round with a constant and a word of the message. -/
def round (s : State) (k w : UInt64) : State :=
  let s1 := rotate s.e 14 ^^^ rotate s.e 18 ^^^ rotate s.e 41
  let choice := (s.e &&& s.f) ^^^ (~~~ s.e &&& s.g)
  let t1 := s.h + s1 + choice + k + w
  let s0 := rotate s.a 28 ^^^ rotate s.a 34 ^^^ rotate s.a 39
  let majority := (s.a &&& s.b) ^^^ (s.a &&& s.c) ^^^ (s.b &&& s.c)
  ⟨t1 + (s0 + majority), s.a, s.b, s.c, s.d + t1, s.e, s.f, s.g⟩

/-- The words of a message, newest first, with the next one. -/
def extend (ws : List UInt64) : List UInt64 :=
  -- `w i` is the word `i + 1` places back
  let w (i : Nat) : UInt64 := ws.getD i 0
  let s0 := rotate (w 14) 1 ^^^ rotate (w 14) 8 ^^^ (w 14 >>> 7)
  let s1 := rotate (w 1) 19 ^^^ rotate (w 1) 61 ^^^ (w 1 >>> 6)
  (w 15 + s0 + w 6 + s1) :: ws

/-- The eighty words for the rounds, from the sixteen of a block. -/
def schedule (block : List UInt64) : List UInt64 :=
  (Nat.repeat extend 64 block.reverse).reverse

/-- Works a block into a state. -/
def compress (s : State) (block : List UInt64) : State :=
  s.add ((roundConstants.zip (schedule block)).foldl (fun s (k, w) => round s k w) s)

/-- The number that bytes denote, the highest first. -/
def word (b : Bytes) : UInt64 := b.foldl (fun w x => w <<< 8 ||| x.toUInt64) 0

/-- The bytes of a word, the highest first. -/
def bytesOf (w : UInt64) : Bytes :=
  [56, 48, 40, 32, 24, 16, 8, 0].map fun n : UInt64 => (w >>> n).toUInt8

/-- A list in pieces of `n + 1` items; the last piece may be shorter. -/
def pieces {α : Type} (n : Nat) : List α → List (List α)
  | [] => []
  | x :: r => (x :: r.take n) :: pieces n (r.drop n)
termination_by s => s.length
decreasing_by grind

/-- A message with its padding: a set bit, zeros up to a whole block, and the length in bits. -/
def pad (message : Bytes) : Bytes :=
  -- the length takes sixteen bytes, of which the upper eight are always zero
  message ++ 0x80 :: List.replicate ((239 - message.length % 128) % 128 + 8) 0
    ++ bytesOf (8 * message.length).toUInt64

/-- The blocks of a padded message, in words. -/
def blocks (padded : Bytes) : List (List UInt64) :=
  (pieces 127 padded).map fun b => (pieces 7 b).map word

/-- The digest of a message. -/
def digest (message : Bytes) : Bytes :=
  ((blocks (pad message)).foldl compress State.initial).words.flatMap bytesOf

/-- The digits of a byte in lower-case hexadecimal. -/
def hexByte (b : UInt8) : List Char :=
  [(b.toNat / 16).digitChar, (b.toNat % 16).digitChar]

/-- The digest of a message in lower-case hexadecimal. -/
def hex (message : Bytes) : String := String.ofList ((digest message).flatMap hexByte)

end Upkeep.Sha512
