import Bourse.Book.Level
import Bourse.Sum

/-! A ladder: the levels of one side, best price first. A level whose last order leaves goes with
it. -/
namespace Bourse

structure Ladder where
  side : Side
  levels : List Level
deriving DecidableEq

namespace Ladder

def empty (side : Side) : Ladder := ⟨side, []⟩

def level? (l : Ladder) (price : Price) : Option Level := l.levels.find? (·.price == price)

def get? (l : Ladder) (price : Price) (sequence : Nat) : Option Order :=
  (l.level? price).bind (·.get? sequence)

/-- Into the level of its price, or into a new one before the first that is worse. -/
def insertInto (side : Side) (o : Order) : List Level → Except Fault (List Level)
  | [] => do return [← (Level.empty o.price).push o]
  | l :: ls =>
    if l.price = o.price then do return (← l.push o) :: ls
    else if side.better o.price l.price then do return (← (Level.empty o.price).push o) :: l :: ls
    else do return l :: (← insertInto side o ls)

def insert (l : Ladder) (o : Order) : Except Fault Ladder := do
  return { l with levels := ← insertInto l.side o l.levels }

/-- A level in front of others, unless nothing is left in it. -/
def keep (l : Level) (ls : List Level) : List Level := if l.queue.isEmpty then ls else l :: ls

def removeFrom (price : Price) (sequence : Nat) :
    List Level → Except Fault (Option (Order × List Level))
  | [] => .ok none
  | l :: ls =>
    if l.price = price then do
      return (← l.remove sequence).map fun (o, l) => (o, keep l ls)
    else do
      return (← removeFrom price sequence ls).map fun (o, ls) => (o, l :: ls)

def remove (l : Ladder) (price : Price) (sequence : Nat) :
    Except Fault (Option (Order × Ladder)) := do
  return (← removeFrom price sequence l.levels).map fun (o, levels) => (o, { l with levels })

def bestLevel (l : Ladder) : Except Fault (Option Level) :=
  match l.levels with
  | [] => .ok none
  | top :: _ =>
    if top.queue.isEmpty then .error (.emptyLevel l.side top.price) else .ok (some top)

def bestPrice (l : Ladder) : Except Fault (Option Price) := do
  return (← l.bestLevel).map (·.price)

def best (l : Ladder) : Except Fault (Option Order) := do
  match (← l.bestLevel).bind (·.front?) with
  | none => .ok none
  | some o => if o.quantity = 0 then .error (.spentOrder o.id) else .ok (some o)

/-- The next order to trade after the fill, and the ladder after it. -/
def fillBest (l : Ladder) (quantity : Nat) (now : Instant) :
    Except Fault (Option (Order × Ladder)) := do
  match ← l.bestLevel with
  | none => .ok none
  | some top =>
    return (← top.fillFront quantity now).map fun (o, top) =>
      (o, { l with levels := keep top l.levels.tail })

/-- All orders, best price first and first come first within a price. -/
def orders (l : Ladder) : List Order := l.levels.flatMap (·.queue)

def orderCount (l : Ladder) : Nat := sumOf (·.queue.length) l.levels

/-- What remains of all orders. Each level fits sixty-four bits; their sum need not. -/
def total (l : Ladder) : Nat := sumOf Level.total l.levels

end Ladder
end Bourse
