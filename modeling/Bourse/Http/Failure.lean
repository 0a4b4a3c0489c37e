import Bourse.Engine.Rejection
import Bourse.Json.Tree
import Bourse.Ledger.Basic

/-! Why a request fails, as its sender is told: a status and a text. -/
namespace Bourse

inductive Failure where
  | notFound (text : String)
  | badRequest (text : String)
  | conflict (text : String)
  | unavailable (text : String)
  | internal (text : String)
deriving DecidableEq

namespace Failure

def text : Failure → String
  | notFound t | badRequest t | conflict t | unavailable t | internal t => t

def status : Failure → Nat
  | notFound _ => 404
  | badRequest _ => 400
  | conflict _ => 409
  | unavailable _ => 503
  | internal _ => 500

def heading : Failure → String
  | notFound _ => "Resource not found: "
  | badRequest _ => "Bad request: "
  | conflict _ => "Conflict: "
  | unavailable _ => "Service unavailable: "
  | internal _ => "Internal server error: "

def message (f : Failure) : String := f.heading ++ f.text

def body (f : Failure) : Json :=
  .record [("error", .record [("code", .nat f.status), ("message", .string f.text)])]

def ofRejection (r : Rejection) : Failure :=
  match r with
  | .invalid _ | .overflow .. => badRequest r.message
  | .duplicate _ => conflict r.message
  | .notFound _ => notFound r.message
  | .unavailable _ => unavailable r.message
  | .refused _ => internal r.message

def ofInvalid (i : Invalid) : Failure := ofRejection (.invalid i)

def ofStoreError (e : StoreError) : Failure :=
  match e with
  | .notFound _ => notFound e.message
  | .storage _ => internal e.message

end Failure
end Bourse
