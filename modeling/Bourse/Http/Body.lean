import Bourse.Engine.Basic

/-! What clients are sent: orders, trades, the outcome of a submission or a cancellation, and the
top of the book. -/
namespace Bourse

/-- A trade as clients see it, with the buying and the selling order named. -/
def Trade.body (t : Trade) : Json :=
  .record [
    ("id", Uuid.codec.write t.id),
    ("sequence", .nat t.sequence),
    ("buy_order_id", .string t.buyer.text),
    ("sell_order_id", .string t.seller.text),
    ("taker_order_id", .string t.taker.text),
    ("maker_order_id", .string t.maker.text),
    ("price", .string t.price.text),
    ("quantity", .nat t.quantity),
    ("created_at", .string t.createdAt.text)]

def Order.body (o : Order) : Json :=
  .record [
    ("id", .string o.id.text),
    ("side", .string o.side.name),
    ("price", .string o.price.text),
    ("original_quantity", .nat o.size),
    ("remaining_quantity", .nat o.quantity),
    ("filled_quantity", .nat o.filled),
    ("status", .string o.status.name),
    ("created_at", .string o.createdAt.text),
    ("updated_at", .string o.updatedAt.text)]

namespace Execution

def summary (x : Execution) : String :=
  match x.order.status with
  | .filled => "Order filled"
  | .partlyFilled => "Order partially filled, remainder resting"
  | .opened | .cancelled => "Order placed successfully"

def body (x : Execution) : Json :=
  .record [
    ("order_id", .string x.order.id.text),
    ("status", .string x.order.status.name),
    ("remaining_quantity", .nat x.order.quantity),
    ("filled_quantity", .nat x.order.filled),
    ("trades", .list (x.trades.map Trade.body)),
    ("message", .string x.summary)]

end Execution

def Order.cancelBody (o : Order) : Json :=
  .record [
    ("order_id", .string o.id.text),
    ("status", .string o.status.name),
    ("side", .string o.side.name)]

def DepthLevel.body (l : DepthLevel) : Json := DepthLevel.codec.write l

namespace Depth

/-- The top of the book, and the levels below it. -/
def body (d : Depth) : Except Decimal.Overflow Json := do
  let spread ← d.spread
  return .record [
    ("best_bid", .orNull (.string ·.text) d.bestBid),
    ("best_ask", .orNull (.string ·.text) d.bestAsk),
    ("spread", .orNull (.string ·.text) spread),
    ("bids", .list (d.bids.map DepthLevel.body)),
    ("asks", .list (d.asks.map DepthLevel.body)),
    ("timestamp", .string d.time.text)]

end Depth
end Bourse
