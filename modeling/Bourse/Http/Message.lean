import Bourse.Http.MediaType
import Bourse.Json.Tree
import Bourse.Text.Blank
import Bourse.Text.Utf8

/-! Requests and responses. -/
namespace Bourse.Http

inductive Method where
  | get
  | head
  | post
  | delete
  | options
  | other (name : String)
deriving DecidableEq

def Method.ofName (name : String) : Method :=
  match name with
  | "GET" => .get
  | "HEAD" => .head
  | "POST" => .post
  | "DELETE" => .delete
  | "OPTIONS" => .options
  | _ => .other name

abbrev Header : Type := String × String

/-- Its `target` is the path, and the query after a question mark. -/
structure Request where
  method : Method
  target : String
  headers : List Header
  body : List UInt8

namespace Request

open Bourse.Text

/-- The target up to a hash sign. -/
def address (r : Request) : List Char := r.target.toList.takeWhile (· != '#')

def path (r : Request) : List Char := r.address.takeWhile (· != '?')

def query (r : Request) : List Char := (r.address.dropWhile (· != '?')).drop 1

/-- The first header of a name, whatever its case. -/
def header? (r : Request) (name : String) : Option String :=
  (r.headers.find? fun h => lowerAscii h.1 == lowerAscii name).map (·.2)

def isJson (r : Request) : Bool :=
  ((r.header? "content-type").bind fun v => MediaType.ofChars? v.toList).any MediaType.isJson

/-- A byte that belongs to no character becomes an escape that names none, whatever follows it, or
spoils the escape it stands in. -/
def repaired : Bool → List (Option Char) → List Char
  | _, [] => []
  | escaped, none :: cs => (if escaped then ['x'] else "\\ud800x".toList) ++ repaired false cs
  | escaped, some c :: cs => c :: repaired (!escaped && c == '\\') cs

/-- The body as a text of JSON. It can be read as such just where the bytes can. -/
def bodyText (r : Request) : String := String.ofList (repaired false (chars r.body))

end Request

structure Response where
  status : Nat
  headers : List Header
  body : String
deriving DecidableEq

namespace Response

open Bourse.Text

def header (r : Response) (name : String) : List String :=
  (r.headers.filter fun h => h.1 == lowerAscii name).map (·.2)

def withHeader (r : Response) (name value : String) : Response :=
  { r with headers := r.headers ++ [(name, value)] }

def bare (status : Nat) : Response := ⟨status, [], ""⟩

def plain (status : Nat) (text : String) : Response :=
  ⟨status, [("content-type", "text/plain; charset=utf-8")], text⟩

def json (status : Nat) (body : Json) : Response :=
  ⟨status, [("content-type", "application/json")], body.text⟩

def withoutBody (r : Response) : Response := { r with body := "" }

/-- Tells how long the body is, in bytes. -/
def measured (r : Response) : Response :=
  r.withHeader "content-length" (String.ofList (decimal r.body.utf8ByteSize))

end Response
end Bourse.Http
