import Bourse.Ledger.Basic

/-! A ledger behind a line that may be out of order: any call can fail, and one that fails does
nothing. -/
namespace Bourse

inductive Operation where
  | saveOrder
  | updateOrder
  | saveTrades
  | getOrder
  | openOrders
  | lastTrade
deriving DecidableEq

namespace Operation

def all : List Operation := [saveOrder, updateOrder, saveTrades, getOrder, openOrders, lastTrade]

def name : Operation → String
  | saveOrder => "save_order"
  | updateOrder => "update_order"
  | saveTrades => "save_trades"
  | getOrder => "get_order"
  | openOrders => "open_orders"
  | lastTrade => "max_trade_sequence"

end Operation

/-- Which calls fail, by number, and with what words. -/
def Outage : Type := Operation → Nat → Option String

namespace Outage

def none : Outage := fun _ _ => .none

/-- The named operations always fail. -/
def ofNames (names : List String) (text : String) : Outage := fun op _ =>
  if names.contains op.name then some text else .none

end Outage

structure Store where
  ledger : Ledger
  outage : Outage
  calls : Nat

namespace Store

def ofLedger (l : Ledger) : Store := ⟨l, .none, 0⟩

/-- One call. What it does to the ledger is lost if it fails. -/
def call {α : Type} (s : Store) (op : Operation) (act : Ledger → Except StoreError (Ledger × α)) :
    Store × Except StoreError α :=
  let s' := { s with calls := s.calls + 1 }
  match s.outage op s.calls with
  | some text => (s', .error (.storage text))
  | none =>
    match act s.ledger with
    | .error e => (s', .error e)
    | .ok (ledger, a) => ({ s' with ledger }, .ok a)

def saveOrder (s : Store) (o : Order) : Store × Except StoreError Unit :=
  s.call .saveOrder fun l => .ok (l.save o, ())

def updateOrder (s : Store) (o : Order) : Store × Except StoreError Unit :=
  s.call .updateOrder fun l => (l.update o).map (·, ())

def saveTrades (s : Store) (ts : List Trade) : Store × Except StoreError Unit :=
  s.call .saveTrades fun l => .ok (l.saveTrades ts, ())

def getOrder (s : Store) (id : OrderId) : Store × Except StoreError (Option Order) :=
  s.call .getOrder fun l => .ok (l, l.get? id)

def openOrders (s : Store) : Store × Except StoreError (List Order) :=
  s.call .openOrders fun l => .ok (l, l.openOrders)

def lastTrade (s : Store) : Store × Except StoreError Nat :=
  s.call .lastTrade fun l => .ok (l, l.lastTrade)

end Store

inductive Entry where
  | saved (o : Order)
  | updated (o : Order)
  | traded (ts : List Trade)
deriving DecidableEq

namespace Store

/-- Records an entry. If that fails nobody is told. -/
def enter (s : Store) : Entry → Store
  | .saved o => (s.saveOrder o).1
  | .updated o => (s.updateOrder o).1
  | .traded ts => (s.saveTrades ts).1

def record (s : Store) (es : List Entry) : Store := es.foldl enter s

end Store
end Bourse
