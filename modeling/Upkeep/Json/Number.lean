import Upkeep.Json.Fault

/-!
# JSON numbers

A number keeps its literal. It is refused when it does not fit a double: its digits are gathered as
long as they fit 64 bits, those after that count as zeros, and the product with the power of ten must
stay finite when each factor is rounded to 53 bits.
-/

namespace Upkeep.Json

open Text

/-- A number rounded to 53 significant bits, a half to the even neighbour. -/
def round53 (n : Nat) : Nat :=
  let e := n.log2 - 52
  let unit := 1 <<< e
  let q := n / unit
  let r := n % unit
  -- `e` is zero for a number that needs no rounding, and then there is no half
  let up := 2 * r > unit || (2 * r == unit && e ≠ 0 && q % 2 == 1)
  (if up then q + 1 else q) * unit

/-- Whether a significand times a power of ten is beyond the doubles. -/
def beyondDoubles (significand : Nat) (exponent : Int) : Bool :=
  significand ≠ 0 && (exponent > 308 ||
    (0 ≤ exponent &&
      1 <<< 1024 - 1 <<< 970 ≤ round53 significand * round53 (Nat.pow 10 exponent.toNat)))

/-- Digits gathered into a significand while it fits 64 bits, and the digits that are left. -/
def gather (n : Nat) : List Char → Nat × List Char
  | [] => (n, [])
  | c :: r =>
    let m := 10 * n + (c.toNat - 48)
    if m < 0x10000000000000000 then gather m r else (n, c :: r)

/-- The digits of an exponent: its value, or the rest after the digit with which it exceeds 32
bits. -/
def exponentDigits (e : Nat) : List Char → Except (List Char) (Nat × List Char)
  | [] => .ok (e, [])
  | c :: r =>
    if c.isDigit then
      if 10 * e + (c.toNat - 48) < 0x80000000 then exponentDigits (10 * e + (c.toNat - 48)) r
      else .error r
    else .ok (e, c :: r)

/-- The digits of the integer part: a leading zero stands alone. -/
def integerPart : List Char → Except Fault (List Char × List Char)
  | [] => .error (.after .endInValue [])
  | '0' :: r =>
    match r with
    | c :: r => if c.isDigit then .error (.into .badNumber (c :: r)) else .ok (['0'], c :: r)
    | [] => .ok (['0'], [])
  | c :: r =>
    if c.isDigit then .ok (c :: r.takeWhile Char.isDigit, r.dropWhile Char.isDigit)
    else .error (.into .badNumber (c :: r))

/-- The digits after the point, when there is one. -/
def fractionPart : List Char → Except Fault (List Char × List Char)
  | '.' :: r =>
    match r with
    | [] => .error (.after .endInValue [])
    | c :: r =>
      if c.isDigit then .ok (c :: r.takeWhile Char.isDigit, r.dropWhile Char.isDigit)
      else .error (.into .badNumber (c :: r))
  | r => .ok ([], r)

/-- Reads the exponent, when there is one, and judges the size of the number. -/
def exponentPart (significand : Nat) (exponent : Int) (s : List Char) : Except Fault (List Char) :=
  let judge (e : Int) (r : List Char) : Except Fault (List Char) :=
    if beyondDoubles significand e then .error (.after .numberOutOfRange r) else .ok r
  match s with
  | [] => judge exponent []
  | c :: r =>
    if c = 'e' ∨ c = 'E' then
      let (negative, digits) := match r with
        | '+' :: r => (false, r)
        | '-' :: r => (true, r)
        | r => (false, r)
      match digits with
      | [] => .error (.after .endInValue [])
      | d :: r =>
        if ! d.isDigit then .error (.into .badNumber (d :: r))
        else match exponentDigits 0 (d :: r) with
          | .ok (e, r) => judge (if negative then exponent - e else exponent + e) r
          | .error r =>
            -- a zero and a number with so small an exponent are zero, whatever digits follow
            if significand ≠ 0 ∧ ¬ negative then .error (.after .numberOutOfRange r)
            else .ok (r.dropWhile Char.isDigit)
    else judge exponent (c :: r)

/-- What follows a number, whose sign has been passed over. -/
def afterNumber (s : List Char) : Except Fault (List Char) := do
  let (whole, r) ← integerPart s
  let (fraction, r) ← fractionPart r
  let (n, dropped) := gather 0 whole
  let (n, left) := gather n fraction
  exponentPart n (dropped.length - (fraction.length - left.length)) r

/-- A number: its literal and the rest. -/
def number? (s : List Char) : Except Fault (List Char × List Char) := do
  let rest ← afterNumber (match s with | '-' :: r => r | r => r)
  return (s.take (s.length - rest.length), rest)

end Upkeep.Json
