import Bourse.Http.Percent
import Bourse.Text.Split

/-! The query of a request: names and values, percent-encoded, with a plus sign for a space. -/
namespace Bourse.Http

open Bourse.Text

/-- What an encoded text says. Bytes that belong to no character stay marked. -/
def decodeComponent (cs : List Char) : List (Option Char) :=
  chars (percentDecode (cs.map fun c => if c = '+' then ' ' else c))

abbrev Parameter : Type := List (Option Char) × List (Option Char)

/-- A name, and the value after the first equals sign. -/
def readParameter (cs : List Char) : Parameter :=
  let (name, value) := cs.span (· != '=')
  (decodeComponent name, decodeComponent (value.drop 1))

def parameters (query : List Char) : List Parameter :=
  ((splitAt '&' query).filter (!·.isEmpty)).map readParameter

inductive QueryError where
  | repeated
  | noCount
deriving DecidableEq

/-- The count of this name. It may be left out, and may not be repeated. -/
def countParameter (name query : List Char) : Except QueryError (Option Nat) :=
  match (parameters query).filter (·.1 == name.map some) with
  | [] => .ok none
  | [(_, value)] =>
    match (value.mapM id).bind (boundedNatural? maxCount) with
    | some n => .ok (some n)
    | none => .error .noCount
  | _ => .error .repeated

end Bourse.Http
