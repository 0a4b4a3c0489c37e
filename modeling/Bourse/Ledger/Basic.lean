import Bourse.Market.Trade

/-! The ledger: the last recorded state of every order, one record an id, and every trade in the
order it was recorded. -/
namespace Bourse

inductive StoreError where
  | notFound (id : OrderId)
  | storage (text : String)
deriving DecidableEq

def StoreError.message : StoreError → String
  | notFound id => "Order " ++ id.text ++ " not found in repository"
  | storage text => "Storage error: " ++ text

structure Ledger where
  orders : List Order
  trades : List Trade
deriving DecidableEq

namespace Ledger

def empty : Ledger := ⟨[], []⟩

def get? (l : Ledger) (id : OrderId) : Option Order := l.orders.find? (·.id == id)

def replace (o : Order) : List Order → List Order
  | [] => [o]
  | p :: os => if p.id = o.id then o :: os else p :: replace o os

/-- Records an order, in place of what was recorded of it before. -/
def save (l : Ledger) (o : Order) : Ledger := { l with orders := replace o l.orders }

/-- The same for an order that has a record already. -/
def update (l : Ledger) (o : Order) : Except StoreError Ledger :=
  if (l.get? o.id).isSome then .ok (l.save o) else .error (.notFound o.id)

def saveTrades (l : Ledger) (ts : List Trade) : Ledger := { l with trades := l.trades ++ ts }

def ofOrders (os : List Order) : Ledger := os.foldl save empty

/-- The orders that are neither filled nor cancelled, oldest first. -/
def openOrders (l : Ledger) : List Order :=
  (l.orders.filter fun o => !o.status.isTerminal).mergeSort Order.comesBefore

/-- The largest number of a trade, zero before the first. -/
def lastTrade (l : Ledger) : Nat := (l.trades.map (·.sequence)).foldl max 0

def tradesFor (l : Ledger) (id : OrderId) : List Trade := l.trades.filter (·.involves id)

def size (l : Ledger) : Nat := l.orders.length

end Ledger
end Bourse
