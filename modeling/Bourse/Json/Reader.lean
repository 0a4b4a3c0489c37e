import Bourse.Json.Tree

/-! Strict JSON from text: one value, and what follows it. Where the text stops being JSON the
value ends and nothing follows. -/
namespace Bourse.Json

open Bourse.Text

def isSpace (c : Char) : Bool := c == ' ' || c == '\n' || c == '\t' || c == '\r'

def skipSpace (cs : List Char) : List Char := cs.dropWhile isSpace

def shortEscape? (c : Char) : Option Char :=
  if c = '"' then some '"'
  else if c = '\\' then some '\\'
  else if c = '/' then some '/'
  else if c = 'n' then some '\n'
  else if c = 'r' then some '\r'
  else if c = 't' then some '\t'
  else if c = 'b' then some '\x08'
  else if c = 'f' then some '\x0c'
  else none

/-- A character that stands for itself, or a unit of sixteen bits given by number. -/
inductive Piece where
  | char (c : Char)
  | unit (n : Nat)

/-- The pieces up to the closing quote, and what follows it. -/
def pieces : List Char → Option (List Piece × List Char)
  | [] => none
  | c :: cs =>
    if c = '"' then some ([], cs)
    else if c = '\\' then
      match cs with
      | [] => none
      | e :: cs =>
        if e = 'u' then
          match cs with
          | h₁ :: h₂ :: h₃ :: h₄ :: cs =>
            match hexValue? [h₁, h₂, h₃, h₄] with
            | some n => (pieces cs).map fun (ps, r) => (.unit n :: ps, r)
            | none => none
          | _ => none
        else
          match shortEscape? e with
          | some x => (pieces cs).map fun (ps, r) => (.char x :: ps, r)
          | none => none
    else if c.toNat < 32 then none
    else (pieces cs).map fun (ps, r) => (.char c :: ps, r)

def isLeading (n : Nat) : Bool := decide (0xD800 ≤ n) && decide (n < 0xDC00)
def isTrailing (n : Nat) : Bool := decide (0xDC00 ≤ n) && decide (n < 0xE000)

/-- Two units of a surrogate pair make one character; alone they name none. -/
def joinPieces : List Piece → Option (List Char)
  | [] => some []
  | .char c :: ps => (joinPieces ps).map (c :: ·)
  | [.unit n] => if isLeading n || isTrailing n then none else some [Char.ofNat n]
  | .unit n :: .char c :: ps =>
    if isLeading n || isTrailing n then none
    else (joinPieces ps).map (Char.ofNat n :: c :: ·)
  | .unit n :: .unit m :: ps =>
    if isLeading n then
      if isTrailing m then
        (joinPieces ps).map (Char.ofNat (0x10000 + (n - 0xD800) * 0x400 + (m - 0xDC00)) :: ·)
      else none
    else if isTrailing n then none
    else (joinPieces (.unit m :: ps)).map (Char.ofNat n :: ·)

/-- The text after an opening quote, if its escapes name one, and what follows the closing one. -/
def quoted (cs : List Char) : Option (Option String × List Char) :=
  (pieces cs).map fun (ps, r) => ((joinPieces ps).map String.ofList, r)

/-- Digits without a needless zero in front. -/
def wholePart (cs : List Char) : Option (List Char × List Char) :=
  match cs.takeWhile Char.isDigit with
  | [] => none
  | d :: ds => if d = '0' ∧ ds ≠ [] then none else some (d :: ds, cs.dropWhile Char.isDigit)

/-- Digits of which there must be one, after the characters that announce them. -/
def digitsAfter (mark : List Char) (cs : List Char) : Option (List Char × List Char) :=
  match cs.takeWhile Char.isDigit with
  | [] => none
  | ds => some (mark ++ ds, cs.dropWhile Char.isDigit)

def fractionPart : List Char → Option (List Char × List Char)
  | '.' :: cs => digitsAfter ['.'] cs
  | cs => some ([], cs)

def exponentPart : List Char → Option (List Char × List Char)
  | c :: cs =>
    if c = 'e' ∨ c = 'E' then
      match cs with
      | '+' :: r => digitsAfter [c, '+'] r
      | '-' :: r => digitsAfter [c, '-'] r
      | r => digitsAfter [c] r
    else some ([], c :: cs)
  | [] => some ([], [])

/-- The literal of a number, and what follows it. -/
def numeral (cs : List Char) : Option (List Char × List Char) := do
  let (sign, cs) := match cs with
    | '-' :: r => (['-'], r)
    | r => ([], r)
  let (whole, cs) ← wholePart cs
  let (fraction, cs) ← fractionPart cs
  let (exponent, cs) ← exponentPart cs
  some (sign ++ whole ++ fraction ++ exponent, cs)

def plainValue (cs : List Char) : Json × Option (List Char) :=
  if "null".toList.isPrefixOf cs then (.null, some (cs.drop 4))
  else if "true".toList.isPrefixOf cs then (.bool true, some (cs.drop 4))
  else if "false".toList.isPrefixOf cs then (.bool false, some (cs.drop 5))
  else match numeral cs with
    | some (literal, r) => (.number (String.ofList literal), some r)
    | none => (.broken, none)

/-- The members up to the first key that is none. -/
def named : List (Option String × Json) → List (String × Json)
  | (some k, j) :: entries => (k, j) :: named entries
  | _ => []

def objectOf (entries : List (Option String × Json)) (whole : Bool) : Json :=
  .object (if !whole then .torn else if entries.any (·.1.isNone) then .nameless else .closed)
    (named entries)

mutual

/-- A value and what follows it. The first argument bounds the steps. -/
def value : Nat → List Char → Json × Option (List Char)
  | 0, _ => (.broken, none)
  | n + 1, cs =>
    match skipSpace cs with
    | [] => (.broken, none)
    | c :: r =>
      if c = '"' then
        match quoted r with
        | some (some t, r) => (.string t, some r)
        | some (none, r) => (.nameless, some r)
        | none => (.broken, none)
      else if c = '[' then
        if (skipSpace r).head? = some ']' then (.array true [], some (skipSpace r).tail)
        else
          let (items, rest) := elements n r
          (.array rest.isSome items, rest)
      else if c = '\x7b' then
        if (skipSpace r).head? = some '\x7d' then (.record [], some (skipSpace r).tail)
        else
          let (entries, rest) := members n r
          (objectOf entries rest.isSome, rest)
      else plainValue (c :: r)

/-- The items of an array from here to its closing bracket. -/
def elements : Nat → List Char → List Json × Option (List Char)
  | 0, _ => ([], none)
  | n + 1, cs =>
    match value n cs with
    | (v, none) => ([v], none)
    | (v, some r) =>
      match skipSpace r with
      | ']' :: r => ([v], some r)
      | ',' :: r =>
        let (vs, rest) := elements n r
        (v :: vs, rest)
      | _ => ([v], none)

/-- The members of an object from here to its closing brace. A key may be none. -/
def members : Nat → List Char → List (Option String × Json) × Option (List Char)
  | 0, _ => ([], none)
  | n + 1, cs =>
    match skipSpace cs with
    | '"' :: r =>
      match quoted r with
      | some (k, r) =>
        match skipSpace r with
        | ':' :: r =>
          match value n r with
          | (v, none) => ([(k, v)], none)
          | (v, some r) =>
            match skipSpace r with
            | '\x7d' :: r => ([(k, v)], some r)
            | ',' :: r =>
              let (ms, rest) := members n r
              ((k, v) :: ms, rest)
            | _ => ([(k, v)], none)
        | _ => ([(k, .broken)], none)
      | none => ([], none)
    | _ => ([], none)

end

/-- Two steps a character are enough. -/
def readChars (cs : List Char) : Json × Option (List Char) := value (2 * cs.length + 2) cs

def read (s : String) : Json × Option (List Char) := readChars s.toList

/-- The value of a text that holds nothing else but white space. -/
def parse? (s : String) : Option Json :=
  match read s with
  | (j, some r) => if (skipSpace r).isEmpty then some j else none
  | (_, none) => none

end Bourse.Json
