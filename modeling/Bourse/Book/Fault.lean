import Bourse.Market.Order
import Bourse.Decimal.Arithmetic

/-! Faults: what can never be the case in a sound book. Each is found where the book relies on its
absence, and ends whatever was going on. -/
namespace Bourse

inductive Fault where
  /-- An order queued at a level of another price. -/
  | wrongLevel (id : OrderId)
  /-- An order of quantity zero about to rest. -/
  | nothingToRest (id : OrderId)
  | levelOverflow (id : OrderId) (price : Price)
  /-- An order queued behind one of no smaller sequence. -/
  | outOfTurn (sequence : Nat) (id : OrderId) (last : Nat)
  | emptyLevel (side : Side) (price : Price)
  /-- An order of quantity zero at rest. -/
  | spentOrder (id : OrderId)
  | overfill (quantity remaining : Nat) (id : OrderId)
  /-- Less at a level in total than in one of its orders. -/
  | shortTotal (price : Price)
  /-- An order in the index that rests nowhere. -/
  | lostOrder (id : OrderId)
  | vanished (side : Side)
  | overflow (cause : Decimal.Overflow)
deriving DecidableEq

def Fault.message : Fault → String
  | wrongLevel id => "order " ++ id.text ++ " queued at wrong level"
  | nothingToRest id => "zero quantity order " ++ id.text ++ " cannot rest"
  | levelOverflow id price => "order " ++ id.text ++ " overflows level " ++ price.text
  | outOfTurn sequence id last =>
    "sequence " ++ countText sequence ++ " of order " ++ id.text ++ " is not after tail " ++
      countText last
  | emptyLevel side price => "empty " ++ side.name ++ " level at " ++ price.text ++ " left in book"
  | spentOrder id => "zero quantity order " ++ id.text ++ " resting"
  | overfill quantity remaining id =>
    "fill of " ++ countText quantity ++ " exceeds remaining " ++ countText remaining ++
      " on order " ++ id.text
  | shortTotal price => "total of level " ++ price.text ++ " is short"
  | lostOrder id => "index entry for " ++ id.text ++ " points at no order"
  | vanished side => "best " ++ side.name ++ " order vanished during fill"
  | overflow cause => cause.message

/-- Less of the order remains. -/
def Order.fill (o : Order) (quantity : Nat) (now : Instant) : Except Fault Order :=
  if quantity ≤ o.quantity then .ok { o with quantity := o.quantity - quantity, updatedAt := now }
  else .error (.overfill quantity o.quantity o.id)

end Bourse
