import Bourse.Feed.Basic
import Bourse.Market.Event

/-! A reader of trades only. Other events are passed over; those lost to lag are counted, whatever
they were. -/
namespace Bourse

structure TradeReader where
  place : Nat
  lagged : Nat
deriving DecidableEq

namespace TradeReader

/-- Reads until a trade is found, within so many steps. -/
def seek (f : Feed Event) : Nat → TradeReader → Found Trade × TradeReader
  | 0, r => (.waiting, r)
  | n + 1, r =>
    match f.read r.place with
    | (.item e, place) =>
      match e.trade? with
      | some t => (.item t, { r with place })
      | none => seek f n { r with place }
    | (.lagged lost, place) => seek f n { place, lagged := r.lagged + lost }
    | (.waiting, _) => (.waiting, r)
    | (.closed, _) => (.closed, r)

def next (f : Feed Event) (r : TradeReader) : Found Trade × TradeReader :=
  seek f (f.ahead r.place) r

/-- The trades found at once, at most so many, and whether the feed has ended behind them. -/
def takeUpTo (f : Feed Event) : Nat → TradeReader → List Trade × Bool × TradeReader
  | 0, r => ([], false, r)
  | n + 1, r =>
    match next f r with
    | (.item t, r) =>
      let (ts, ended, r) := takeUpTo f n r
      (t :: ts, ended, r)
    | (.closed, r) => ([], true, r)
    | (_, r) => ([], false, r)

end TradeReader

namespace Feed

def subscribeTrades (f : Feed Event) : Feed Event × TradeReader :=
  let (f, place) := f.subscribe
  (f, ⟨place, 0⟩)

end Feed
end Bourse
