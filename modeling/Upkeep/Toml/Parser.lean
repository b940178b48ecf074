import Upkeep.Toml.Scalar
import Upkeep.Toml.Table

/-!
# Reading TOML

A TOML text gives keys their values line by line, under the header of a table.

* `Toml.parse`: the table of a text, when it is accepted.
-/

namespace Upkeep.Toml

/-- A character of a key without quotes. -/
def isBareKey (c : Char) : Bool := c.isAlphanum || c == '_' || c == '-'

/-- One part of a key. -/
def keyPart? (s : List Char) : Option (String × List Char) :=
  match lineString? s with
  | some (k, r) => some (String.ofList k, r)
  | none =>
    match s with
    | '"' :: _ | '\'' :: _ => none
    | _ =>
      if s.takeWhile isBareKey = [] then none
      else some (String.ofList (s.takeWhile isBareKey), s.dropWhile isBareKey)

/-- A key: parts with dots between them, and the rest after blanks. -/
def key? : Nat → List Char → Option (List String × List Char)
  | 0, _ => none
  | fuel + 1, s =>
    match keyPart? (skipSpace s) with
    | none => none
    | some (k, r) =>
      match skipSpace r with
      | '.' :: r => (key? fuel r).map fun (ks, r) => (k :: ks, r)
      | r => some ([k], r)

/-- How deep arrays and inline tables may be nested. -/
def maxDepth : Nat := 80

mutual

/-- A value and the rest; `depth` levels may open inside it. -/
def value? : Nat → Nat → List Char → Option (Data × List Char)
  | 0, _, _ => none
  | fuel + 1, depth, s =>
    match s with
    | '"' :: _ | '\'' :: _ => (string? s).map fun (t, r) => (.text (String.ofList t), r)
    | '[' :: r =>
      match depth with
      | 0 => none
      | depth + 1 => (items? fuel depth (skipLines s.length r)).map fun (l, r) => (.list l, r)
    | '{' :: r =>
      match depth with
      | 0 => none
      | depth + 1 => (members? fuel depth [] (skipLines s.length r)).map
          fun (ms, r) => (.table (membersData ms), r)
    | _ => bare? s

/-- The items of an array up to its bracket, and the rest. -/
def items? : Nat → Nat → List Char → Option (List Data × List Char)
  | 0, _, _ => none
  | fuel + 1, depth, s =>
    match s with
    | ']' :: r => some ([], r)
    | _ =>
      match value? fuel depth s with
      | none => none
      | some (v, r) =>
        match skipLines s.length r with
        | ',' :: r =>
          (items? fuel depth (skipLines s.length r)).map fun (vs, r) => (v :: vs, r)
        | ']' :: r => some ([v], r)
        | _ => none

/-- The members of an inline table up to its brace, beyond those that were read, and the rest. -/
def members? : Nat → Nat → Members → List Char → Option (Members × List Char)
  | 0, _, _, _ => none
  | fuel + 1, depth, ms, s =>
    match s with
    | '\x7d' :: r => some (ms, r)
    | _ =>
      match key? s.length s with
      | some (path, '=' :: r) =>
        match value? fuel depth (skipSpace r) with
        | none => none
        | some (v, r) =>
          match assign? path v ms with
          | none => none
          | some ms =>
            match skipLines s.length r with
            | ',' :: r => members? fuel depth ms (skipLines s.length r)
            | '\x7d' :: r => some (ms, r)
            | _ => none
      | _ => none

end

/-- What follows the blanks and the comment at the end of a line, and the line itself. -/
def lineEnd? (s : List Char) : Option (List Char) :=
  match skipComment (skipSpace s) with
  | [] => some []
  | s => newline? s

/-- The tables of a text from one of its lines on; `here` is the path of the last header. -/
def lines? : Nat → List String → Members → List Char → Option Members
  | 0, _, _, _ => none
  | fuel + 1, here, root, s =>
    match skipLines s.length s with
    | [] => some root
    | '[' :: '[' :: r =>
      match key? r.length r with
      | some (path, ']' :: ']' :: r) =>
        match openItem? path root, lineEnd? r with
        | some root, some r => lines? fuel path root r
        | _, _ => none
      | _ => none
    | '[' :: r =>
      match key? r.length r with
      | some (path, ']' :: r) =>
        match openTable? path root, lineEnd? r with
        | some root, some r => lines? fuel path root r
        | _, _ => none
      | _ => none
    | s =>
      match key? s.length s with
      | some (path, '=' :: r) =>
        match value? (2 * r.length + 2) maxDepth (skipSpace r) with
        | none => none
        | some (v, r) =>
          match within? (assign? path v) here root, lineEnd? r with
          | some root, some r => lines? fuel here root r
          | _, _ => none
      | _ => none

/-- A text without the mark of its byte order at the front. -/
def dropMark : List Char → List Char
  | '\ufeff' :: r => r
  | s => s

/-- The table of a text, when it is accepted. -/
def parse (s : String) : Option Data :=
  let s := dropMark s.toList
  (lines? (s.length + 1) [] [] s).map fun ms => .table (membersData ms)

end Upkeep.Toml
