import Bourse.Http.Message
import Bourse.Text.Split

/-! Routes: the paths there are, and what may be done at each. -/
namespace Bourse.Http

inductive Route where
  | health
  | orders
  /-- One order; its id is still percent-encoded. -/
  | order (segment : String)
  | depth
  | trades
deriving DecidableEq

inductive Action where
  | health
  | createOrder
  | showOrder (segment : String)
  | cancelOrder (segment : String)
  | showDepth
  | openSocket
deriving DecidableEq

namespace Route

def ofPath? (path : List Char) : Option Route :=
  match (Text.splitAt '/' path).map String.ofList with
  | ["", "health"] => some .health
  | ["", "orders"] => some .orders
  | ["", "orders", segment] => if segment.isEmpty then none else some (.order segment)
  | ["", "orderbook"] => some .depth
  | ["", "ws"] => some .trades
  | _ => none

/-- Whoever may get may also ask for the head only. -/
def action? (route : Route) (method : Method) : Option Action :=
  match route, method with
  | .health, .get | .health, .head => some .health
  | .orders, .post => some .createOrder
  | .order segment, .get | .order segment, .head => some (.showOrder segment)
  | .order segment, .delete => some (.cancelOrder segment)
  | .depth, .get | .depth, .head => some .showDepth
  | .trades, .get | .trades, .head => some .openSocket
  | _, _ => none

def allowed : Route → String
  | .orders => "POST"
  | .order _ => "GET,HEAD,DELETE"
  | .health | .depth | .trades => "GET,HEAD"

end Route
end Bourse.Http
