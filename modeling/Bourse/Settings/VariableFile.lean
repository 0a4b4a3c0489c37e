import Bourse.Text.Alphanumeric
import Bourse.Text.Blank
import Bourse.Text.Split

/-! Variables from a file of lines `NAME=value`. Values may be quoted, and may use variables by a
dollar sign. A variable that is set already keeps its value. The first line that makes no sense ends
the reading; what came before it counts. -/
namespace Bourse.VariableFile

open Bourse.Text

abbrev Variables : Type := List (String × String)

/-- How far a variable's name has been read: after a dollar sign, or within braces. -/
inductive Naming where
  | off
  | bare
  | braced
deriving DecidableEq

structure State where
  single : Bool
  double : Bool
  escaped : Bool
  ended : Bool
  naming : Naming
  name : List Char
  output : List Char

def State.start : State := ⟨false, false, false, false, .off, [], []⟩

def escapedChar? (c : Char) : Option Char :=
  if c = '\\' ∨ c = '\'' ∨ c = '"' ∨ c = '$' ∨ c = ' ' then some c
  else if c = 'n' then some '\n'
  else none

/-- Puts the value of the named variable in the place of its name. -/
def State.substitute (s : State) (value : String → String) : State :=
  { s with name := [], output := s.output ++ (value (String.ofList s.name)).toList }

def nameStep (value : String → String) (s : State) (c : Char) : State :=
  if isAlphanumeric c then { s with name := s.name ++ [c] }
  else match s.naming with
    | .braced =>
      if c = '\x7d' then { s.substitute value with naming := .off }
      else { s with name := s.name ++ [c] }
    | _ =>
      if c = '\x7b' ∧ s.name = [] then { s with naming := .braced }
      else if c = '$' then s.substitute value
      else
        let s := s.substitute value
        { s with naming := .off, output := s.output ++ [c] }

/-- A character of a value. A comment may follow the blank that ends it, and nothing else may. -/
def step (value : String → String) (s : State) (c : Char) : Option State :=
  if s.escaped then
    (escapedChar? c).map fun x => { s with escaped := false, output := s.output ++ [x] }
  else if s.single then
    some (if c = '\'' then { s with single := false } else { s with output := s.output ++ [c] })
  else if s.naming ≠ .off then some (nameStep value s c)
  else if c = '$' then some { s with naming := .bare }
  else if c = '\\' then some { s with escaped := true }
  else if c = '"' then some { s with double := !s.double }
  else if s.double then some { s with output := s.output ++ [c] }
  else if c = '\'' then some { s with single := true }
  else if c = ' ' ∨ c = '\t' then some { s with ended := true }
  else some { s with output := s.output ++ [c] }

def steps (value : String → String) (s : State) : List Char → Option State
  | [] => some s
  | c :: cs =>
    if s.ended then
      if c = ' ' ∨ c = '\t' then steps value s cs else if c = '#' then some s else none
    else (step value s c).bind fun s => steps value s cs

/-- The value of a text. No quote and no brace may be left open. -/
def readValue (value : String → String) (cs : List Char) : Option String :=
  (steps value .start cs).bind fun s =>
    if s.single || s.double || s.naming == .braced then none
    else some (String.ofList (s.substitute value).output)

def isNameStart (c : Char) : Bool := c.isAlpha || c == '_'

def isNameChar (c : Char) : Bool := c.isAlphanum || c == '_' || c == '.'

def readName (cs : List Char) : Option (List Char × List Char) :=
  if cs.head?.any isNameStart then some (cs.takeWhile isNameChar, cs.dropWhile isNameChar) else none

def readEquals (cs : List Char) : Option (List Char) :=
  match trimStart cs with
  | '=' :: r => some (trimStart r)
  | _ => none

/-- The name, and the text of the value. The word `export` may come before the name, and may be one
itself. -/
def readStart (cs : List Char) : Option (List Char × List Char) := do
  let (name, cs) ← readName cs
  match readEquals cs with
  | some r => some (name, r)
  | none =>
    if name = "export".toList then do
      let (name, cs) ← readName (trimStart cs)
      let r ← readEquals cs
      some (name, r)
    else none

inductive Line where
  | nothing
  | assignment (name value : String)
  | senseless

def isCommentOrEmpty : List Char → Bool
  | [] => true
  | c :: _ => c == '#'

def readLine (value : String → String) (line : List Char) : Line :=
  let cs := trimStart (trimEnd line)
  if isCommentOrEmpty cs then .nothing
  else match readStart cs with
    | none => .senseless
    | some (name, r) =>
      if isCommentOrEmpty r then .assignment (String.ofList name) ""
      else match readValue value r with
        | some v => .assignment (String.ofList name) v
        | none => .senseless

/-- The value for substitution: of a variable that is set, or that a line assigned last. -/
def valueIn (set assigned : Variables) (name : String) : String :=
  match set.lookup name with
  | some v => v
  | none => (assigned.lookup name).getD ""

/-- The variables set after the lines, the newest first. -/
def loadLines (set assigned : Variables) : List (List Char) → Variables
  | [] => set
  | l :: ls =>
    match readLine (valueIn set assigned) l with
    | .nothing => loadLines set assigned ls
    | .senseless => set
    | .assignment name v =>
      let newSet := if (set.lookup name).isSome then set else (name, v) :: set
      loadLines newSet ((name, v) :: assigned) ls

def load (set : Variables) (file : String) : Variables :=
  loadLines set [] (splitAt '\n' file.toList)

def words (file : String) : List String :=
  let letters := file.toList.map fun c => if isNameChar c then c else ' '
  ((splitAt ' ' letters).filter (!·.isEmpty)).map String.ofList

end Bourse.VariableFile
