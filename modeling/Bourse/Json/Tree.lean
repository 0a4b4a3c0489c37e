import Bourse.Text.Digits

/-! JSON values. A value read from a text that breaks off or goes wrong keeps what was read: an
array or object that was not closed says so, and `broken` stands where no value could be read. So
whoever looks for a shape in it meets a wrong shape and a wrong text in the order they stand. -/
namespace Bourse

/-- How the members of an object end: at its closing brace; where the text went wrong; or before a
key with an escape that names no character. Such an object is whole, but may only be skipped. -/
inductive Json.Ending where
  | closed
  | torn
  | nameless
deriving DecidableEq

inductive Json where
  | null
  | bool (b : Bool)
  | number (literal : String)
  | string (text : String)
  /-- A quoted text with an escape that names no character. It may only be skipped. -/
  | nameless
  | array (closed : Bool) (items : List Json)
  | object (ending : Json.Ending) (members : List (String × Json))
  | broken
deriving Inhabited

namespace Json

open Bourse.Text

def nat (n : Nat) : Json := number (String.ofList (decimal n))
def list (items : List Json) : Json := array true items
def record (members : List (String × Json)) : Json := object .closed members

def Ending.isClosed (e : Ending) : Bool := e == .closed

/-- Nothing is written as null. -/
def orNull {α : Type} (write : α → Json) : Option α → Json
  | some a => write a
  | none => null

def isTorn : Json → Bool
  | array closed _ => !closed
  | object ending _ => ending == .torn
  | broken => true
  | _ => false

/-- The short escapes, and `\u` with four digits for the other control characters. -/
def escape (c : Char) : List Char :=
  if c = '"' then ['\\', '"']
  else if c = '\\' then ['\\', '\\']
  else if c = '\n' then ['\\', 'n']
  else if c = '\r' then ['\\', 'r']
  else if c = '\t' then ['\\', 't']
  else if c = '\x08' then ['\\', 'b']
  else if c = '\x0c' then ['\\', 'f']
  else if c.toNat < 32 then '\\' :: 'u' :: hexPadded 4 c.toNat
  else [c]

def quote (cs : List Char) : List Char := '"' :: cs.flatMap escape ++ ['"']

mutual

/-- Written without white space. What cannot be written is left out. -/
def toChars : Json → List Char
  | null => "null".toList
  | bool b => if b then "true".toList else "false".toList
  | number literal => literal.toList
  | string text => quote text.toList
  | nameless => []
  | array _ items => '[' :: itemChars items ++ [']']
  | object _ members => '\x7b' :: memberChars members ++ ['\x7d']
  | broken => []

def itemChars : List Json → List Char
  | [] => []
  | [j] => toChars j
  | j :: js => toChars j ++ ',' :: itemChars js

def memberChars : List (String × Json) → List Char
  | [] => []
  | [(k, j)] => quote k.toList ++ ':' :: toChars j
  | (k, j) :: ms => quote k.toList ++ ':' :: toChars j ++ ',' :: memberChars ms

end

def text (j : Json) : String := String.ofList j.toChars

end Json
end Bourse
