import Upkeep.Bytes
import Upkeep.Text.Search

/-!
# Web addresses

An address is read as browsers read it: blanks around it do not matter, a backslash is a slash, dots
in the path are followed, and what may not stand in an address is written by percent signs.

* `Url.parse?`: the address that a text stands for; only those of the web are known.
* `Url.text`: how an address is written.
* `Url.resolve?`: the address that a reference leads to from another one.
* `Url.encode_plain`: a text without reserved characters stands for itself.
-/

namespace Upkeep

open Text

/-- An address on the web. The segments of the path, the query and the fragment are kept as they are
written in it. -/
structure Url where
  isSecure : Bool
  host : String
  /-- The number after the host, where it is not the usual one. -/
  portNumber : Option Nat
  path : List String
  query : Option String
  fragment : Option String
  deriving DecidableEq, Inhabited

namespace Url

/-- A digit of a byte that is written by a percent sign. -/
def upperHexDigit (n : Nat) : Char := if n < 10 then Char.ofNat (48 + n) else Char.ofNat (55 + n)

/-- A byte, written by a percent sign. -/
def percentByte (b : UInt8) : List Char :=
  ['%', upperHexDigit (b.toNat / 16), upperHexDigit (b.toNat % 16)]

/-- Whether a character cannot stand in an address at all, or is among the reserved ones. -/
def mustEncode (reserved : List Char) (c : Char) : Bool :=
  c.toNat < 0x20 || 0x7e < c.toNat || reserved.contains c

/-- A text, as it is written in a part of an address with given reserved characters. -/
def encode (reserved : List Char) (s : List Char) : List Char :=
  s.flatMap fun c => if mustEncode reserved c then (Utf8.encode [c]).flatMap percentByte else [c]

theorem encode_plain {reserved s : List Char} (h : ∀ c ∈ s, mustEncode reserved c = false) :
    encode reserved s = s := by
  induction s with
  | nil => rfl
  | cons c s ih =>
    have hc := h c (by simp)
    have hs := ih fun c hc => h c (by simp [hc])
    simp only [encode, List.flatMap_cons, hc] at hs ⊢
    simp [hs]

/-- What is reserved in the path. -/
def pathReserved : List Char := [' ', '"', '#', '<', '>', '?', '^', '\x60', '\x7b', '\x7d']

/-- What is reserved in the query. -/
def queryReserved : List Char := [' ', '"', '#', '\'', '<', '>']

/-- What is reserved in the fragment. -/
def fragmentReserved : List Char := [' ', '"', '<', '>', '\x60']

/-- What may not stand in the name of a host. -/
def hostForbidden : List Char :=
  [' ', '#', '%', '/', ':', '<', '>', '?', '@', '[', '\\', ']', '^', '|']

/-- Whether a character separates the segments of a path. -/
def isSlash (c : Char) : Bool := c == '/' || c == '\\'

/-- Whether a segment is a dot, however it is written. -/
def isDot (s : List Char) : Bool := [".".toList, "%2e".toList].contains (lowerAscii s)

/-- Whether a segment is two dots, however they are written. -/
def isDotDot (s : List Char) : Bool :=
  ["..".toList, ".%2e".toList, "%2e.".toList, "%2e%2e".toList].contains (lowerAscii s)

/-- The segments of a path, after those that stand before them, last first: a dot stays where it is and
two dots go one segment back. -/
def follow : List String → List (List Char) → List String
  | before, [] => before.reverse
  | before, s :: rest =>
    let before := if isDotDot s then before.drop 1 else before
    -- a path that ends in dots ends in a slash
    if isDot s || isDotDot s then
      if rest.isEmpty then ("" :: before).reverse else follow before rest
    else follow (String.ofList (encode pathReserved s) :: before) rest

/-- The parts of a text between slashes of either kind. -/
def slashFields : List Char → List (List Char)
  | [] => [[]]
  | c :: r =>
    match slashFields r with
    | [] => [[c]]
    | f :: fs => if isSlash c then [] :: f :: fs else (c :: f) :: fs

/-- The segments of what stands between the host and the query. -/
def pathOf (s : List Char) : List String := follow [] (slashFields (s.drop 1))

/-- The number after a host, or none when the usual one is meant; refused when it is out of range. -/
def portNumber? (isSecure : Bool) (s : List Char) : Option (Option Nat) :=
  if s = [] then some none
  else if s.all Char.isDigit then
    let n := s.foldl (fun n c => n * 10 + (c.toNat - 48)) 0
    if n ≤ 65535 then some (if n = (if isSecure then 443 else 80) then none else some n) else none
  else none

/-- The host and its number, from the part of an address that names them. -/
def hostOf? (isSecure : Bool) (s : List Char) : Option (String × Option Nat) :=
  let s := if s.contains '@' then afterLast '@' s else s
  let host := s.takeWhile (· ≠ ':')
  let isPlain := host.all fun c => 0x20 ≤ c.toNat && c.toNat ≠ 0x7f && ! hostForbidden.contains c
  if host ≠ [] && isPlain then
    (portNumber? isSecure ((s.dropWhile (· ≠ ':')).drop 1)).map
      fun number => (String.ofList (lowerAscii host), number)
  else none

/-- The address that stands after the scheme. -/
def ofRest? (isSecure : Bool) (s : List Char) : Option Url := do
  let s := s.dropWhile isSlash
  let isEnd (c : Char) : Bool := isSlash c || c == '?' || c == '#'
  let (host, number) ← hostOf? isSecure (s.takeWhile (! isEnd ·))
  let s := s.dropWhile (! isEnd ·)
  let fragment := (cut '#' s).map fun (_, f) => String.ofList (encode fragmentReserved f)
  let s := upTo ['#'] s
  let query := (cut '?' s).map fun (_, q) => String.ofList (encode queryReserved q)
  return ⟨isSecure, host, number, pathOf (upTo ['?'] s), query, fragment⟩

/-- A text without the blanks around it and the breaks in it. -/
def bare (s : List Char) : List Char :=
  let isBlank (c : Char) : Bool := c.toNat ≤ 0x20
  ((s.dropWhile isBlank).reverse.dropWhile isBlank).reverse.filter fun c =>
    c ≠ '\t' && c ≠ '\n' && c ≠ '\r'

/-- The address that a text stands for, on characters. -/
def parseChars? (s : List Char) : Option Url := do
  let (scheme, rest) ← cut ':' (bare s)
  if lowerAscii scheme = "http".toList then ofRest? false rest
  else if lowerAscii scheme = "https".toList then ofRest? true rest
  else none

/-- The address that a text stands for. -/
def parse? (s : String) : Option Url := parseChars? s.toList

/-- The scheme of an address. -/
def scheme (u : Url) : String := if u.isSecure then "https" else "http"

/-- The server of an address, with the scheme. -/
def origin (u : Url) : String :=
  u.scheme ++ "://" ++ u.host ++ (u.portNumber.map fun n => ":" ++ toString n).getD ""

/-- The path as it is written. -/
def pathText (u : Url) : String := String.join (u.path.map ("/" ++ ·))

/-- What a server is asked for: the path and the query. -/
def target (u : Url) : String := u.pathText ++ (u.query.map ("?" ++ ·)).getD ""

/-- How an address is written. -/
def text (u : Url) : String := u.origin ++ u.target ++ (u.fragment.map ("#" ++ ·)).getD ""

/-- What may stand in a reference besides letters and digits. -/
def referencePunctuation : List Char := "-._~:/?#@!$&'()*+,;=".toList

/-- Whether a text has the form of a reference. -/
def isReference : List Char → Bool
  | [] => true
  | '%' :: a :: b :: r => isHexDigit a && isHexDigit b && isReference r
  | '#' :: r => ! r.contains '#' && isReference r
  | c :: r => (c.isAlphanum || referencePunctuation.contains c) && isReference r

/-- Whether a text can be a scheme. -/
def isScheme : List Char → Bool
  | [] => false
  | c :: r => c.isAlpha && r.all fun c => c.isAlphanum || c == '+' || c == '-' || c == '.'

/-- The address that a reference leads to from another one; none when the text is no reference, or
leads off the web. -/
def resolve? (u : Url) (s : List Char) : Option Url :=
  let from_ (lead : String) : Option Url := parseChars? (lead.toList ++ s)
  let first := upTo ['/', '?', '#'] s
  if ! isReference s then none
  else if first.contains ':' then
    if isScheme (first.takeWhile (· ≠ ':')) then parseChars? s else none
  else match s with
    | '/' :: '/' :: _ => from_ (u.scheme ++ ":")
    | '/' :: _ => from_ u.origin
    | '?' :: _ => from_ (u.origin ++ u.pathText)
    | [] | '#' :: _ => from_ (u.origin ++ u.target)
    | _ => from_ (u.origin ++ String.join (u.path.dropLast.map ("/" ++ ·)) ++ "/")

end Url

end Upkeep
