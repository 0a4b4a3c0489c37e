/-! Media types: a type and a subtype, and parameters after semicolons. -/
namespace Bourse.Http

structure MediaType where
  main : List Char
  /-- What stands before the last plus sign. -/
  sub : List Char
  /-- What stands behind it. -/
  suffix : Option (List Char)
deriving DecidableEq

namespace MediaType

def isTokenChar (c : Char) : Bool := c.isAlphanum || "!#$%&'*+-.^_`|~".toList.contains c

/-- Where the reading of the parameters stands. -/
inductive Place where
  | name
  | insideName
  | value
  | insideValue
  | quoted
  | insideQuoted
  | afterQuoted
deriving DecidableEq

def isQuotable (c : Char) : Bool := decide (31 < c.toNat) && c.toNat != 127

/-- A character of the parameters. Blanks may stand before a name and after a quoted value. A quoted
value has at least one character, whatever it is. -/
def Place.step : Place → Char → Option Place
  | .name, c => if c = ' ' then some .name else if isTokenChar c then some .insideName else none
  | .insideName, c =>
    if isTokenChar c then some .insideName else if c = '=' then some .value else none
  | .value, c => if c = '"' then some .quoted else if isTokenChar c then some .insideValue else none
  | .insideValue, c =>
    if isTokenChar c then some .insideValue else if c = ';' then some .name else none
  | .quoted, c => if isQuotable c then some .insideQuoted else none
  | .insideQuoted, c =>
    if c = '"' then some .afterQuoted else if isQuotable c then some .insideQuoted else none
  | .afterQuoted, c =>
    if c = ';' then some .name else if c = ' ' then some .afterQuoted else none

def Place.isEnd : Place → Bool
  | .name | .value | .insideValue | .afterQuoted => true
  | .insideName | .quoted | .insideQuoted => false

def areParameters (cs : List Char) : Bool := (cs.foldlM Place.step .name).any Place.isEnd

/-- The subtype and its suffix. A plus sign in front is part of the subtype. -/
def splitSuffix (cs : List Char) : List Char × Option (List Char) :=
  let suffix := (cs.reverse.takeWhile (· != '+')).reverse
  let sub := cs.take (cs.length - suffix.length - 1)
  if suffix.length < cs.length && !sub.isEmpty then (sub, some suffix) else (cs, none)

def ofChars? (cs : List Char) : Option MediaType :=
  let main := cs.takeWhile isTokenChar
  match main, cs.dropWhile isTokenChar with
  | _ :: _, '/' :: cs =>
    let (sub, suffix) := splitSuffix (cs.takeWhile isTokenChar)
    match cs.dropWhile isTokenChar with
    | [] => some ⟨main, sub, suffix⟩
    | ';' :: r => if !sub.isEmpty && areParameters r then some ⟨main, sub, suffix⟩ else none
    | _ => none
  | _, _ => none

def isWord (cs : List Char) (word : String) : Bool := cs.map Char.toLower == word.toList

def isJson (m : MediaType) : Bool :=
  isWord m.main "application" && (isWord m.sub "json" || m.suffix.any (isWord · "json"))

end MediaType
end Bourse.Http
