import Bourse.Market.Price
import Bourse.Market.Status
import Bourse.Time.Instant

/-! Limit orders, and the requests they come from. -/
namespace Bourse

structure OrderId where
  text : String
deriving DecidableEq, Inhabited

/-- An order of `size`, of which `quantity` remains. The engine sets `status` and `sequence`. -/
structure Order where
  id : OrderId
  side : Side
  price : Price
  size : Nat
  quantity : Nat
  status : Status
  sequence : Nat
  createdAt : Instant
  updatedAt : Instant
deriving DecidableEq, Inhabited

namespace Order

/-- A new order with nothing traded and no place in any queue. -/
def new (id : OrderId) (side : Side) (price : Price) (quantity : Nat) (now : Instant) : Order :=
  { id, side, price, size := quantity, quantity, status := .opened, sequence := 0,
    createdAt := now, updatedAt := now }

/-- What has traded. An order that is recorded with more left than its size has traded nothing; in
64 bits the difference would overflow. -/
def filled (o : Order) : Nat := o.size - o.quantity

/-- The status of a live order: partial as soon as some of it has traded. -/
def liveStatus (o : Order) : Status := if o.quantity < o.size then .partlyFilled else .opened

/-- Order by sequence, then by time of creation. -/
def comesBefore (a b : Order) : Bool :=
  ((compare a.sequence b.sequence).then (Instant.compare a.createdAt b.createdAt)).isLE

end Order

/-- An order as asked for: the side is free text, the price any decimal, the id optional. -/
structure OrderRequest where
  id : Option String
  side : String
  price : Decimal
  quantity : Nat
deriving DecidableEq

namespace OrderRequest

/-- The id asked for; a blank one is as good as none. -/
def givenId (r : OrderRequest) : Option OrderId :=
  (r.id.filter fun t => !Text.isBlankText t).map OrderId.mk

/-- The order asked for. Side, price and quantity are checked in this order; `fresh` names an order
that does not name itself. -/
def toOrder (r : OrderRequest) (fresh : OrderId) (now : Instant) : Except Invalid Order :=
  match Side.ofText? r.side with
  | none => .error (.side r.side)
  | some side =>
    match Price.ofDecimal r.price with
    | .error e => .error e
    | .ok price =>
      if r.quantity = 0 then .error (.quantity r.quantity)
      else .ok (Order.new (r.givenId.getD fresh) side price r.quantity now)

end OrderRequest
end Bourse
