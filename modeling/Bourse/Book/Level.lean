import Bourse.Book.Fault

/-! A level: the orders resting at one price, first come first, and what remains of them all. Only
the head of the queue is filled; an order leaves from anywhere when it is cancelled. -/
namespace Bourse

structure Level where
  price : Price
  queue : List Order
  total : Nat
deriving DecidableEq

namespace Level

def empty (price : Price) : Level := ⟨price, [], 0⟩

/-- The total would stay within sixty-four bits. -/
def canHold (l : Level) (quantity : Nat) : Bool := decide (l.total + quantity ≤ Text.maxCount)

def push (l : Level) (o : Order) : Except Fault Level :=
  if o.price ≠ l.price then .error (.wrongLevel o.id)
  else if o.quantity = 0 then .error (.nothingToRest o.id)
  else if !l.canHold o.quantity then .error (.levelOverflow o.id l.price)
  else match l.queue.getLast? with
    | some last =>
      if last.sequence < o.sequence then
        .ok { l with queue := l.queue ++ [o], total := l.total + o.quantity }
      else .error (.outOfTurn o.sequence o.id last.sequence)
    | none => .ok { l with queue := [o], total := l.total + o.quantity }

def front? (l : Level) : Option Order := l.queue.head?

def get? (l : Level) (sequence : Nat) : Option Order := l.queue.find? (·.sequence == sequence)

def less (l : Level) (queue : List Order) (quantity : Nat) : Except Fault Level :=
  if quantity ≤ l.total then .ok { l with queue, total := l.total - quantity }
  else .error (.shortTotal l.price)

/-- The head of the queue after the fill, and the level after it. A head of which something remains
keeps its place. -/
def fillFront (l : Level) (quantity : Nat) (now : Instant) :
    Except Fault (Option (Order × Level)) :=
  match l.queue with
  | [] => .ok none
  | o :: rest => do
    let o ← o.fill quantity now
    if o.quantity = 0 then
      let l ← l.less rest quantity
      .ok (some ({ o with status := .filled }, l))
    else
      let o := { o with status := .partlyFilled }
      let l ← l.less (o :: rest) quantity
      .ok (some (o, l))

def remove (l : Level) (sequence : Nat) : Except Fault (Option (Order × Level)) :=
  match l.get? sequence with
  | none => .ok none
  | some o => do
    let l ← l.less (l.queue.eraseP (·.sequence == sequence)) o.quantity
    .ok (some (o, l))

end Level
end Bourse
