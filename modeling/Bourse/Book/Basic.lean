import Bourse.Book.Depth

/-! The book: both ladders, and an index that tells of every resting order where it rests. -/
namespace Bourse

/-- Why an order cannot rest. -/
inductive Refusal where
  | duplicate (id : OrderId)
  | nothingToRest (id : OrderId)
  | terminal (id : OrderId) (status : Status)
  | overflow (id : OrderId) (price : Price)
deriving DecidableEq

/-- Two places in the program refuse an order for want of room, in the same words. -/
def overflowText (id : OrderId) (price : Price) : String :=
  "Order " ++ id.text ++ " would overflow the total quantity resting at " ++ price.text

def Refusal.message : Refusal → String
  | duplicate id => "Order " ++ id.text ++ " is already in the orderbook"
  | nothingToRest id => "Order " ++ id.text ++ " has zero quantity"
  | terminal id status => "Order " ++ id.text ++ " is " ++ status.name ++ " and cannot rest"
  | overflow id price => overflowText id price

structure Place where
  side : Side
  price : Price
  sequence : Nat
deriving DecidableEq

structure Book where
  bids : Ladder
  asks : Ladder
  index : List (OrderId × Place)
deriving DecidableEq

namespace Book

def empty : Book := ⟨.empty .buy, .empty .sell, []⟩

def ladder (b : Book) : Side → Ladder
  | .buy => b.bids
  | .sell => b.asks

def setLadder (b : Book) (side : Side) (l : Ladder) : Book :=
  match side with
  | .buy => { b with bids := l }
  | .sell => { b with asks := l }

def contains (b : Book) (id : OrderId) : Bool := (b.index.lookup id).isSome

def find? (b : Book) (id : OrderId) : Option Order :=
  (b.index.lookup id).bind fun p => (b.ladder p.side).get? p.price p.sequence

def unindex (b : Book) (id : OrderId) : Book :=
  { b with index := b.index.filter fun e => e.1 != id }

/-- The first reason, if any, why the order cannot rest. -/
def refusal? (b : Book) (o : Order) : Option Refusal :=
  if o.quantity = 0 then some (.nothingToRest o.id)
  else if o.status.isTerminal then some (.terminal o.id o.status)
  else if b.contains o.id then some (.duplicate o.id)
  else if (((b.ladder o.side).level? o.price).getD (.empty o.price)).canHold o.quantity then none
  else some (.overflow o.id o.price)

def place (b : Book) (o : Order) : Except Fault Book := do
  let l ← (b.ladder o.side).insert o
  return { b.setLadder o.side l with index := (o.id, ⟨o.side, o.price, o.sequence⟩) :: b.index }

def add (b : Book) (o : Order) : Except Fault (Except Refusal Book) :=
  match b.refusal? o with
  | some r => .ok (.error r)
  | none => do return .ok (← b.place o)

/-- The order taken out, and the book without it. An id that does not rest is no error: the order
may have been filled. -/
def remove (b : Book) (id : OrderId) : Except Fault (Option (Order × Book)) :=
  match b.index.lookup id with
  | none => .ok none
  | some p => do
    match ← (b.ladder p.side).remove p.price p.sequence with
    | none => .error (.lostOrder id)
    | some (o, l) => return some (o, (b.setLadder p.side l).unindex id)

def best (b : Book) (side : Side) : Except Fault (Option Order) := (b.ladder side).best

def bestPrice (b : Book) (side : Side) : Except Fault (Option Price) := (b.ladder side).bestPrice

/-- The next order on the side to trade after the fill, and the book after it. An order that is
filled up is in the book no more. -/
def fillBest (b : Book) (side : Side) (quantity : Nat) (now : Instant) :
    Except Fault (Option (Order × Book)) := do
  match ← (b.ladder side).fillBest quantity now with
  | none => return none
  | some (o, l) =>
    let b := b.setLadder side l
    return some (o, if o.quantity = 0 then b.unindex o.id else b)

def spread (b : Book) : Except Fault (Option Decimal) := do
  let ask ← b.bestPrice .sell
  let bid ← b.bestPrice .buy
  (spreadOf bid ask).mapError Fault.overflow

def volumeAt (b : Book) (side : Side) (price : Price) : Option Nat :=
  ((b.ladder side).level? price).map (·.total)

def ordersAt (b : Book) (side : Side) (price : Price) : List Order :=
  (((b.ladder side).level? price).map (·.queue)).getD []

def levelCount (b : Book) (side : Side) : Nat := (b.ladder side).levels.length

def depth (b : Book) (limit : Nat) (now : Instant) : Depth := .capture b.bids b.asks limit now

def size (b : Book) : Nat := b.index.length

def isEmpty (b : Book) : Bool := b.index.isEmpty

def orders (b : Book) : List Order := b.bids.orders ++ b.asks.orders

end Book
end Bourse
