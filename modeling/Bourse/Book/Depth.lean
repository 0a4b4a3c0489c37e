import Bourse.Book.Ladder
import Bourse.Market.Codec

/-! Depth: the best levels of each side at a moment, with their totals. -/
namespace Bourse

structure DepthLevel where
  price : Price
  quantity : Nat
  orders : Nat
deriving DecidableEq

structure Depth where
  bids : List DepthLevel
  asks : List DepthLevel
  time : Instant
deriving DecidableEq

def Level.summary (l : Level) : DepthLevel := ⟨l.price, l.total, l.queue.length⟩

/-- The distance from the bid up to the ask; it is negative where they cross. -/
def spreadOf (bid ask : Option Price) : Except Decimal.Overflow (Option Decimal) :=
  match bid, ask with
  | some bid, some ask => (ask.value.minus bid.value).map some
  | _, _ => .ok none

namespace Depth

def capture (bids asks : Ladder) (limit : Nat) (now : Instant) : Depth where
  bids := (bids.levels.take limit).map Level.summary
  asks := (asks.levels.take limit).map Level.summary
  time := now

def bestBid (d : Depth) : Option Price := d.bids.head?.map (·.price)

def bestAsk (d : Depth) : Option Price := d.asks.head?.map (·.price)

def spread (d : Depth) : Except Decimal.Overflow (Option Decimal) := spreadOf d.bestBid d.bestAsk

end Depth

def DepthLevel.codec : Codec DepthLevel :=
  .record (.cons "price" Price.codec <| .cons "quantity" Codec.count <|
      .cons "order_count" Codec.count .nil)
    (fun l => (l.price, l.quantity, l.orders, ()))
    (fun (price, quantity, orders, _) => { price, quantity, orders })

def Depth.codec : Codec Depth :=
  .record (.cons "bids" (.list DepthLevel.codec) <| .cons "asks" (.list DepthLevel.codec) <|
      .cons "timestamp" Instant.codec .nil)
    (fun d => (d.bids, d.asks, d.time, ()))
    (fun (bids, asks, time, _) => { bids, asks, time })

end Bourse
