import Bourse.Http.Message

/-! Requests and responses as lines: a method, a target and a body, and a status and a body. -/
namespace Bourse.Http

open Bourse.Text

/-- The word that a text begins with, and what follows it. -/
def firstWord (cs : List Char) : List Char × List Char :=
  (cs.takeWhile (!isBlank ·), trimStart (cs.dropWhile (!isBlank ·)))

/-- The rest of the line is the body. A request with a body says that it is JSON. -/
def Request.ofLine (line : String) : Request :=
  let (method, rest) := firstWord (trimBoth line.toList)
  let (target, body) := firstWord rest
  { method := .ofName (String.ofList method), target := String.ofList target
    headers := if body.isEmpty then [] else [("content-type", "application/json")]
    body := utf8 body }

def Response.line (r : Response) : String :=
  String.ofList (decimal r.status ++ ' ' :: r.body.toList)

end Bourse.Http
