import Bourse.Engine.Basic
import Bourse.Feed.Trades
import Bourse.Ledger.Store

/-! The desk: the one place where the engine is worked. It takes one command at a time, records what
came of it, tells the feed, and replies. A record that fails is not mended and undoes nothing. -/
namespace Bourse

structure Desk where
  engine : Engine
  store : Store
  feed : Feed Event
  serving : Bool

inductive Command where
  | submit (o : Order)
  | cancel (id : OrderId)
  | best (side : Side)
  | find (id : OrderId)
  | depth (limit : Nat)
deriving DecidableEq

inductive Reply where
  | execution (x : Execution)
  | cancelled (o : Option Order)
  | order (o : Option Order)
  | depth (d : Depth)
deriving DecidableEq

def Desk.standardBuffer : Nat := 1000

/-- Whether there is room for so many waiting commands, of which one is always allowed. -/
def Desk.room (buffer : Nat) : Except NoRoom Unit := Room.ofQueue (max buffer 1)

/-- Per fill the trade and its maker, then the taker's fill, then what of it rests. -/
def Execution.events (x : Execution) (now : Instant) : List Event :=
  x.fills.flatMap (fun f => [.traded f.trade now, .matched f.maker f.trade.quantity now]) ++
    (if x.order.filled > 0 then [.matched x.order x.order.filled now] else []) ++
    (if x.order.quantity > 0 then [.added x.order now] else [])

/-- The taker, the makers, and the trades if there are any. -/
def Execution.entries (x : Execution) : List Entry :=
  .saved x.order :: x.makers.map .updated ++ (if x.fills.isEmpty then [] else [.traded x.trades])

namespace Desk

def publish (d : Desk) (es : List Event) : Desk := { d with feed := (d.feed.publishAll es).1 }

def submit (d : Desk) (o : Order) (m : Moment) :
    Except Fault (Desk × Except Rejection Execution) := do
  let (engine, result) ← d.engine.submit o m
  let d := { d with engine }
  match result with
  | .error r => return (d, .error r)
  | .ok x =>
    let d := { d with store := d.store.record x.entries }
    return (d.publish (x.events m.now), .ok x)

/-- Nothing comes of the cancellation of an order that does not rest. -/
def cancel (d : Desk) (id : OrderId) (m : Moment) :
    Except Fault (Desk × Except Rejection (Option Order)) := do
  let (engine, gone) ← d.engine.cancel id m.now
  let d := { d with engine }
  match gone with
  | none => return (d, .ok none)
  | some o =>
    let d := { d with store := d.store.record [.updated o] }
    return (d.publish [.cancelled o m.now], .ok (some o))

def best (d : Desk) (side : Side) : Except Fault (Desk × Except Rejection (Option Order)) := do
  let o ← d.engine.book.best side
  return (d, .ok o)

def find (d : Desk) (id : OrderId) : Except Fault (Desk × Except Rejection (Option Order)) :=
  .ok (d, .ok (d.engine.book.find? id))

def depth (d : Desk) (limit : Nat) (now : Instant) : Except Fault (Desk × Except Rejection Depth) :=
  .ok (d, .ok (d.engine.book.depth limit now))

def replying {α : Type} (reply : α → Reply) (r : Except Fault (Desk × Except Rejection α)) :
    Except Fault (Desk × Except Rejection Reply) :=
  r.map fun (d, a) => (d, a.map reply)

def handle (d : Desk) (c : Command) (m : Moment) : Except Fault (Desk × Except Rejection Reply) :=
  match c with
  | .submit o => replying .execution (d.submit o m)
  | .cancel id => replying .cancelled (d.cancel id m)
  | .best side => replying .order (d.best side)
  | .find id => replying .order (d.find id)
  | .depth limit => replying .depth (d.depth limit m.now)

/-- The sequence recorded of an order. Of several records the last one counts. -/
def recordedSequence? (recorded : List Order) (id : OrderId) : Option Nat :=
  (recorded.reverse.find? (·.id == id)).map (·.sequence)

/-- The placed orders whose sequence is no longer the recorded one. -/
def moved (recorded placed : List Order) : List Order :=
  placed.filter fun o => recordedSequence? recorded o.id != some o.sequence

/-- A desk over this store: trades are numbered on and open orders are back on the book. Orders
whose sequence had to move are recorded again. If the open orders cannot be read, the book is
empty. -/
def start (store : Store) (feed : Feed Event) : Except Fault Desk := do
  let (store, last) := store.lastTrade
  let engine := match last with
    | .ok n => Engine.new.resumeTrades n
    | .error _ => Engine.new
  let (store, stored) := store.openOrders
  match stored with
  | .error _ => return { engine, store, feed, serving := true }
  | .ok os =>
    let (engine, placed) ← engine.restore os
    let store := store.record ((moved os placed).map .updated)
    return { engine, store, feed, serving := true }

def closedText : String := "OrderBookWorker channel closed"

def unansweredText : String := "Failed to receive response from OrderBookWorker"

/-- Work for a desk that may have closed. -/
def call {α : Type} (d : Desk) (work : Desk → Except Fault (Desk × Except Rejection α)) :
    Except Fault (Desk × Except Rejection α) :=
  if d.serving then work d else .ok (d, .error (.unavailable closedText))

def ask (d : Desk) (c : Command) (m : Moment) : Except Fault (Desk × Except Rejection Reply) :=
  d.call fun d => d.handle c m

def shutdown (d : Desk) : Desk × Except Rejection Unit :=
  if d.serving then ({ d with serving := false }, .ok ())
  else (d, .error (.unavailable closedText))

inductive Message where
  | command (c : Command)
  | shutdown
deriving DecidableEq

/-- What comes back for a message: a reply, or for a shutdown nothing. -/
inductive Answer where
  | reply (r : Except Rejection Reply)
  | sent

/-- Works off a queue. What stands behind a shutdown is never looked at. -/
def serve (m : Moment) : Desk → List Message → Except Fault (Desk × List Answer)
  | d, [] => .ok (d, [])
  | d, .shutdown :: ms => do
    let (d, as) ← serve m { d with serving := false } ms
    return (d, .sent :: as)
  | d, .command c :: ms =>
    if d.serving then do
      let (d, r) ← d.handle c m
      let (d, as) ← serve m d ms
      return (d, .reply r :: as)
    else do
      let (d, as) ← serve m d ms
      return (d, .reply (.error (.unavailable unansweredText)) :: as)

end Desk
end Bourse
