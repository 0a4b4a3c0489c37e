import Bourse.Decimal.Arithmetic
import Bourse.Market.Order
import Bourse.Uuid

/-! Trades: one fill between an incoming order and a resting one, at the resting order's price. -/
namespace Bourse

structure Trade where
  id : Uuid
  sequence : Nat
  taker : OrderId
  maker : OrderId
  takerSide : Side
  price : Price
  quantity : Nat
  createdAt : Instant
deriving DecidableEq, Inhabited

namespace Trade

def buyer (t : Trade) : OrderId :=
  match t.takerSide with
  | .buy => t.taker
  | .sell => t.maker

def seller (t : Trade) : OrderId :=
  match t.takerSide with
  | .buy => t.maker
  | .sell => t.taker

def involves (t : Trade) (id : OrderId) : Bool := t.taker == id || t.maker == id

def notional (t : Trade) : Except Decimal.Overflow Decimal := t.price.value.times t.quantity

end Trade
end Bourse
