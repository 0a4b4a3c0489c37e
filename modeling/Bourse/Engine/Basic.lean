import Bourse.Engine.Rejection
import Bourse.Sum

/-! The engine: a book and the two counters that number orders and trades. An incoming order trades
against the best order of the other side while their prices cross; what remains of it rests. -/
namespace Bourse

/-- The clock while a command runs, and an id for each trade number. The clock is read once a
command; read anew at each fill, each cancellation and each batch of events it would give times that
differ within a command, but nothing is decided by them. -/
structure Moment where
  now : Instant
  tradeId : Nat → Uuid

/-- The counters have no bound here. In 64 bits they overflow behind the largest number, which many
calls do not reach, but one record may. -/
structure Engine where
  book : Book
  nextSequence : Nat
  nextTrade : Nat
deriving DecidableEq

/-- A trade, and its maker after it. -/
structure Fill where
  trade : Trade
  maker : Order
deriving DecidableEq

/-- An accepted order after its fills, in the order they occurred. -/
structure Execution where
  order : Order
  fills : List Fill
deriving DecidableEq

namespace Execution

def trades (x : Execution) : List Trade := x.fills.map (·.trade)

def makers (x : Execution) : List Order := x.fills.map (·.maker)

def filled (x : Execution) : Nat := sumOf Trade.quantity x.trades

end Execution

namespace Engine

def new : Engine := ⟨.empty, 1, 1⟩

/-- One fill against the best order of the other side, if there is one and it crosses. -/
def fillOnce (e : Engine) (taker : Order) (m : Moment) :
    Except Fault (Option (Engine × Order × Fill)) := do
  if taker.quantity = 0 then return none
  let some best ← e.book.best taker.side.opposite | return none
  if !taker.side.crosses taker.price best.price then return none
  let quantity := min taker.quantity best.quantity
  let some (maker, book) ← e.book.fillBest taker.side.opposite quantity m.now
    | .error (.vanished taker.side.opposite)
  let taker ← taker.fill quantity m.now
  let trade : Trade :=
    { id := m.tradeId e.nextTrade, sequence := e.nextTrade, taker := taker.id, maker := maker.id
      takerSide := taker.side, price := maker.price, quantity, createdAt := m.now }
  return some ({ e with book, nextTrade := e.nextTrade + 1 }, taker, ⟨trade, maker⟩)

/-- Fills until there are no more, at most as many as the first argument says. -/
def sweep : Nat → Engine → Order → Moment → Except Fault (Engine × Order × List Fill)
  | 0, e, taker, _ => .ok (e, taker, [])
  | n + 1, e, taker, m => do
    match ← e.fillOnce taker m with
    | none => return (e, taker, [])
    | some (e, taker, fill) =>
      let (e, taker, fills) ← sweep n e taker m
      return (e, taker, fill :: fills)

/-- Every fill but the last takes an order out of the other side, so this many are enough. -/
def sweepAll (e : Engine) (taker : Order) (m : Moment) :
    Except Fault (Engine × Order × List Fill) :=
  sweep ((e.book.ladder taker.side.opposite).orderCount + 1) e taker m

/-- Why an order is turned away before the book is touched. Matching leaves the order's own side
alone, so whether its level can hold it is known beforehand. -/
def rejection? (e : Engine) (o : Order) : Option Rejection :=
  if o.quantity = 0 then some (.invalid (.quantity o.quantity))
  else if e.book.contains o.id then some (.duplicate o.id)
  else if (e.book.volumeAt o.side o.price).getD 0 + o.quantity ≤ Text.maxCount then none
  else some (.overflow o.id o.price)

/-- What remains of a matched order comes to rest. -/
def rest (e : Engine) (o : Order) (fills : List Fill) :
    Except Fault (Engine × Except Rejection Execution) :=
  if o.quantity = 0 then .ok (e, .ok ⟨{ o with status := .filled }, fills⟩)
  else
    let o := { o with status := o.liveStatus }
    do match ← e.book.add o with
      | .error r => return (e, .error (.refused r))
      | .ok book => return ({ e with book }, .ok ⟨o, fills⟩)

/-- Takes the next place in line, trades, and rests. -/
def submit (e : Engine) (o : Order) (m : Moment) :
    Except Fault (Engine × Except Rejection Execution) :=
  match e.rejection? o with
  | some r => .ok (e, .error r)
  | none => do
    let taker :=
      { o with sequence := e.nextSequence, size := o.quantity, status := .opened }
    let (e, taker, fills) ← sweepAll { e with nextSequence := e.nextSequence + 1 } taker m
    e.rest taker fills

def cancel (e : Engine) (id : OrderId) (now : Instant) :
    Except Fault (Engine × Option Order) := do
  match ← e.book.remove id with
  | none => return (e, none)
  | some (o, book) =>
    return ({ e with book }, some { o with status := .cancelled, updatedAt := now })

/-- Puts one recorded order on the book, unless it cannot rest. Its sequence stays, or is moved up
to the next one free; the largest sequence of 64 bits would leave none for the next order. -/
def restoreOne (e : Engine) (o : Order) : Except Fault (Engine × Option Order) :=
  if o.quantity = 0 || o.status.isTerminal then .ok (e, none)
  else
    let o := { o with sequence := max o.sequence e.nextSequence, status := o.liveStatus }
    do match ← e.book.add o with
      | .error _ => return (e, none)
      | .ok book => return ({ e with book, nextSequence := o.sequence + 1 }, some o)

def restoreAll (e : Engine) : List Order → Except Fault (Engine × List Order)
  | [] => .ok (e, [])
  | o :: os => do
    let (e, placed) ← e.restoreOne o
    let (e, placedAfter) ← e.restoreAll os
    return (e, placed.toList ++ placedAfter)

/-- Puts recorded orders on the book without matching, in the order of their sequences, and says
which were placed and how they now rest. -/
def restore (e : Engine) (os : List Order) : Except Fault (Engine × List Order) :=
  e.restoreAll (os.mergeSort Order.comesBefore)

/-- Trades are numbered after the last one recorded. The counter never goes back. -/
def resumeTrades (e : Engine) (last : Nat) : Engine :=
  { e with nextTrade := max e.nextTrade (last + 1) }

end Engine
end Bourse
