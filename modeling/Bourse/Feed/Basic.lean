import Bourse.Room

/-! A feed: what is published reaches everyone who has subscribed, each at a place of his own. The
feed keeps the latest items only. A reader who has fallen behind them is told how many he lost and
goes on with the oldest kept one. -/
namespace Bourse

/-- The latest `size` items are kept, which is `capacity` or more; `position` counts what was
published. -/
structure Feed (α : Type) where
  capacity : Nat
  size : Nat
  recent : List α
  position : Nat
  subscribers : Nat
  live : Bool

inductive Found (α : Type) where
  | item (a : α)
  | lagged (lost : Nat)
  | waiting
  | closed

namespace Feed

variable {α : Type}

/-- The first power of two that is not below `n`, from `p` on, within so many doublings. -/
def powerFrom : Nat → Nat → Nat → Nat
  | 0, p, _ => p
  | k + 1, p, n => if n ≤ p then p else powerFrom k (2 * p) n

/-- The number of items kept is a power of two. -/
def sizeFor (capacity : Nat) : Nat := powerFrom capacity 1 capacity

def new (capacity : Nat) : Except NoRoom (Feed α) :=
  if capacity = 0 then .error .emptyFeed
  else if Room.largestFeed < capacity then .error .vastFeed
  else (Room.ofEvents (sizeFor capacity)).map fun _ =>
    ⟨capacity, sizeFor capacity, [], 0, 0, true⟩

def standardCapacity : Nat := 1024

def standard : Feed α := ⟨standardCapacity, standardCapacity, [], 0, 0, true⟩

/-- How many subscribers it reaches. With none the item is gone. -/
def publish (f : Feed α) (a : α) : Feed α × Nat :=
  if f.subscribers = 0 then (f, 0)
  else
    let recent := f.recent ++ [a]
    ({ f with recent := recent.drop (recent.length - f.size), position := f.position + 1 },
      f.subscribers)

/-- How many of the items reach a subscriber. -/
def publishAll (f : Feed α) : List α → Feed α × Nat
  | [] => (f, 0)
  | a :: as =>
    let (f, n) := f.publish a
    let (f, reached) := f.publishAll as
    (f, (if n > 0 then 1 else 0) + reached)

/-- A new reader starts with what is published next. -/
def subscribe (f : Feed α) : Feed α × Nat :=
  ({ f with subscribers := f.subscribers + 1 }, f.position)

def unsubscribe (f : Feed α) : Feed α := { f with subscribers := f.subscribers - 1 }

def close (f : Feed α) : Feed α := { f with live := false }

/-- The place of the oldest item kept. -/
def oldest (f : Feed α) : Nat := f.position - f.recent.length

/-- What a reader at this place finds, and his place after it. -/
def read (f : Feed α) (place : Nat) : Found α × Nat :=
  if place < f.oldest then (.lagged (f.oldest - place), f.oldest)
  else match f.recent[place - f.oldest]? with
    | some a => (.item a, place + 1)
    | none => (if f.live then .waiting else .closed, place)

/-- Everything found at once, at most so many entries, up to the end of the feed. -/
def drain (f : Feed α) : Nat → Nat → List (Found α) × Nat
  | 0, place => ([], place)
  | n + 1, place =>
    match f.read place with
    | (.waiting, place) => ([], place)
    | (.closed, place) => ([.closed], place)
    | (found, place) =>
      let (more, place) := f.drain n place
      (found :: more, place)

/-- More entries than a reader at this place can find. -/
def ahead (f : Feed α) (place : Nat) : Nat := f.position - place + 2

end Feed
end Bourse
