import Bourse.Json.Range
import Bourse.Json.Reader

/-! Codecs: how values of a type are written as JSON and read back. Reading distinguishes a text
that is no JSON from JSON of the wrong shape, and reports whichever comes first in the text. -/
namespace Bourse

inductive ReadError where
  | malformed
  | mismatched
deriving DecidableEq

/-- A writer and a reader. `absent` is the value of a field that is left out, if it may be. -/
structure Codec (α : Type) where
  write : α → Json
  read : Json → Except ReadError α
  absent : Option α := none

namespace Codec

def misfit : Json → ReadError
  | .nameless | .broken => .malformed
  | _ => .mismatched

def string : Codec String where
  write := .string
  read
    | .string t => .ok t
    | j => .error (misfit j)

/-- Values that stand in a text for others; some texts stand for none. -/
def through {α β : Type} (c : Codec α) (write : β → α) (read : α → Option β) : Codec β where
  write b := c.write (write b)
  read j :=
    match c.read j with
    | .error e => .error e
    | .ok a =>
      match read a with
      | some b => .ok b
      | none => .error .mismatched

/-- Null and a field left out stand for nothing. -/
def option {α : Type} (c : Codec α) : Codec (Option α) where
  write := Json.orNull c.write
  read
    | .null => .ok none
    | j => (c.read j).map some
  absent := some none

def readItems {α : Type} (c : Codec α) : List Json → Except ReadError (List α)
  | [] => .ok []
  | j :: js =>
    match c.read j with
    | .error e => .error e
    | .ok a => (readItems c js).map (a :: ·)

def list {α : Type} (c : Codec α) : Codec (List α) where
  write as := .list (as.map c.write)
  read
    | .array closed items =>
      match readItems c items with
      | .error e => .error e
      | .ok as => if closed then .ok as else .error .malformed
    | j => .error (misfit j)

/-- A choice among words. The word may also be the one member of an object, whose value is null. -/
def word {α : Type} (all : List α) (name : α → String) : Codec α where
  write a := .string (name a)
  read
    | .string t => pick t
    | .object .closed [(t, .null)] => pick t
    | .object .closed [_] => .error .mismatched
    | _ => .error .malformed
where
  pick (t : String) : Except ReadError α :=
    match all.find? (fun a => name a == t) with
    | some a => .ok a
    | none => .error .mismatched

/-- A count of at most sixty-four bits: digits only. Another number is looked at as one of double
precision before it is refused, and must be in range for that. -/
def count : Codec Nat where
  write := Json.nat
  read
    | .number literal =>
      match Text.natural? literal.toList with
      | some n =>
        if n ≤ Text.maxCount then .ok n
        else .error (unfit literal)
      | none => .error (unfit literal)
    | j => .error (misfit j)
where
  unfit (literal : String) : ReadError :=
    if Json.outOfRange literal.toList then .malformed else .mismatched

/-- The name of the one member of an object that stands for a number. -/
def numberKey : String := "$serde_json::private::Number"

/-- A decimal is written as a text, and read digit by digit from a text, from a number, or from an
object that stands for a number and holds it as a text. -/
def decimal : Codec Decimal where
  write d := .string d.text
  read
    | .string t => ofNumeral t
    | .number t => ofNumeral t
    | .object .closed [] => .error .mismatched
    | .object _ [] => .error .malformed
    | .object ending ((k, j) :: others) =>
      if k = numberKey then
        match ofText j with
        | .error e => .error e
        | .ok d => if ending.isClosed && others.isEmpty then .ok d else .error .malformed
      else .error .mismatched
    | j => .error (misfit j)
where
  ofText : Json → Except ReadError Decimal
    | .string t => ofNumeral t
    | j => .error (misfit j)
  ofNumeral (t : String) : Except ReadError Decimal :=
    match Decimal.ofText? t with
    | some d => .ok d
    | none => .error .mismatched

/-- The same, written as a number. -/
def bareDecimal : Codec Decimal := { decimal with write := fun d => .number d.text }

end Codec

inductive Fields : Type → Type 1 where
  | nil : Fields Unit
  | cons {α β : Type} (name : String) (codec : Codec α) (rest : Fields β) : Fields (α × β)

namespace Fields

def write {β : Type} : Fields β → β → List (String × Json)
  | nil, _ => []
  | cons name codec rest, (a, b) => (name, codec.write a) :: rest.write b

def check? {β : Type} : Fields β → String → Json → Option (Except ReadError Unit)
  | nil, _, _ => none
  | cons name codec rest, k, j =>
    if name = k then some ((codec.read j).map fun _ => ()) else rest.check? k j

/-- The first thing wrong with the members of an object. A field may stand there once; members
of other names are passed over. -/
def firstFault {β : Type} (fields : Fields β) :
    List String → List (String × Json) → Option ReadError
  | _, [] => none
  | seen, (k, j) :: ms =>
    match fields.check? k j with
    | none => if j.isTorn then some .malformed else firstFault fields seen ms
    | some r =>
      if seen.contains k then some .mismatched
      else match r with
        | .error e => some e
        | .ok _ => firstFault fields (k :: seen) ms

def absent {α : Type} (codec : Codec α) : Except ReadError α :=
  match codec.absent with
  | some a => .ok a
  | none => .error .mismatched

def build {β : Type} : Fields β → List (String × Json) → Except ReadError β
  | nil, _ => .ok ()
  | cons name codec rest, ms =>
    match (match ms.lookup name with
      | some j => codec.read j
      | none => absent codec) with
    | .error e => .error e
    | .ok a => (rest.build ms).map (a, ·)

def readMembers {β : Type} (fields : Fields β) (ending : Json.Ending)
    (ms : List (String × Json)) : Except ReadError β :=
  match fields.firstFault [] ms with
  | some e => .error e
  | none => if ending.isClosed then fields.build ms else .error .malformed

/-- The values of the fields one after the other, without their names. -/
def readItems {β : Type} : Fields β → Bool → List Json → Except ReadError β
  | nil, true, [] => .ok ()
  | nil, _, _ => .error .malformed
  | cons _ codec rest, closed, [] =>
    if closed then
      match absent codec with
      | .error e => .error e
      | .ok a => (rest.readItems closed []).map (a, ·)
    else .error .malformed
  | cons _ codec rest, closed, j :: js =>
    match codec.read j with
    | .error e => .error e
    | .ok a => (rest.readItems closed js).map (a, ·)

def read {β : Type} (fields : Fields β) : Json → Except ReadError β
  | .object ending ms => fields.readMembers ending ms
  | .array closed items => fields.readItems closed items
  | j => .error (Codec.misfit j)

end Fields

namespace Codec

/-- A record: an object of its fields, or an array of their values. -/
def record {α β : Type} (fields : Fields β) (split : α → β) (join : β → α) : Codec α where
  write a := .record (fields.write (split a))
  read j := (fields.read j).map join

def encode {α : Type} (c : Codec α) (a : α) : String := (c.write a).text

/-- The value a text begins with. What follows it is not looked at. -/
def readText {α : Type} (c : Codec α) (s : String) : Except ReadError α := c.read (Json.read s).1

/-- The value a text holds with nothing but white space around it. -/
def decode? {α : Type} (c : Codec α) (s : String) : Option α :=
  (Json.parse? s).bind fun j => (c.read j).toOption

end Codec
end Bourse
