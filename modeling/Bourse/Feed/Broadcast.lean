import Bourse.Feed.Basic

/-! A feed in use: what goes on at it apart from one reader, and a record of what this reader has
missed and what not. -/
namespace Bourse

/-- What happens at a feed: an item is published, readers come and go, or the last publisher goes,
after whom nobody publishes. -/
inductive Bustle (α : Type) where
  | publish (a : α)
  | join
  | part
  | close

namespace Feed

variable {α : Type}

def after (f : Feed α) : Bustle α → Feed α
  | .publish a => if f.live then (f.publish a).1 else f
  | .join => f.subscribe.1
  | .part => f.unsubscribe
  | .close => f.close

/-- All that can become of a new feed of this capacity. -/
inductive Used (capacity : Nat) : Feed α → Prop where
  | new {f : Feed α} : Feed.new capacity = .ok f → Used capacity f
  | after {f : Feed α} : Used capacity f → (b : Bustle α) → Used capacity (f.after b)

/-- What a look from this place tells of the items on the way: each that is found, and nothing of
one that is lost. -/
def passed (f : Feed α) (place : Nat) : List (Option α) :=
  match (f.read place).1 with
  | .item a => [some a]
  | .lagged lost => List.replicate lost none
  | .waiting | .closed => []

end Feed

/-- A feed since one of its readers has come. On record are the items published since then and, for
those that he is past, what he was told of them. -/
structure Broadcast (α : Type) where
  feed : Feed α
  published : List α
  past : List (Option α)

namespace Broadcast

variable {α : Type}

def start (f : Feed α) : Broadcast α := ⟨f.subscribe.1, [], []⟩

/-- The reader himself stays, so only others can go. -/
def after (b : Broadcast α) : Bustle α → Broadcast α
  | .publish a =>
    if b.feed.live then
      { b with feed := b.feed.after (.publish a), published := b.published ++ [a] }
    else b
  | .part => if 1 < b.feed.subscribers then { b with feed := b.feed.after .part } else b
  | other => { b with feed := b.feed.after other }

def look (b : Broadcast α) (place : Nat) : Broadcast α :=
  { b with past := b.past ++ b.feed.passed place }

/-- What the reader was given. -/
def given (b : Broadcast α) : List α := b.past.filterMap id

def unread (b : Broadcast α) : List α := b.published.drop b.past.length

/-- What was published and is not lost to the reader. -/
def kept (b : Broadcast α) : List α := b.given ++ b.unread

end Broadcast
end Bourse
