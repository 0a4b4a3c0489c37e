import Bourse.Market.Trade

/-! What subscribers are told. -/
namespace Bourse

inductive EventKind where
  | added
  | matched
  | cancelled
  | traded
deriving DecidableEq

namespace EventKind

def all : List EventKind := [added, matched, cancelled, traded]

def name : EventKind → String
  | added => "OrderAdded"
  | matched => "OrderMatched"
  | cancelled => "OrderCancelled"
  | traded => "TradeExecuted"

end EventKind

/-- An order came to rest, traded, or was cancelled, each with the order as it then is; or a trade
happened. -/
inductive Event where
  | added (order : Order) (time : Instant)
  | matched (order : Order) (quantity : Nat) (time : Instant)
  | cancelled (order : Order) (time : Instant)
  | traded (trade : Trade) (time : Instant)
deriving DecidableEq

namespace Event

def kind : Event → EventKind
  | added .. => .added
  | matched .. => .matched
  | cancelled .. => .cancelled
  | traded .. => .traded

def time : Event → Instant
  | added _ t | matched _ _ t | cancelled _ t | traded _ t => t

def trade? : Event → Option Trade
  | traded t _ => some t
  | _ => none

end Event
end Bourse
