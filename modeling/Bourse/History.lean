import Bourse.Market.Event
import Bourse.Room

/-! The history: the latest events, oldest first. -/
namespace Bourse

structure History where
  limit : Nat
  events : List Event
deriving DecidableEq

namespace History

def empty (limit : Nat) : History := ⟨limit, []⟩

/-- There must be room for all the events that the limit allows. -/
def new (limit : Nat) : Except NoRoom History := (Room.ofEvents limit).map fun _ => empty limit

def topics : List String := EventKind.all.map EventKind.name

/-- A full history first forgets its oldest event. -/
def add (h : History) (e : Event) : History :=
  let kept := if h.events.length ≥ h.limit then h.events.drop 1 else h.events
  { h with events := kept ++ [e] }

def addAll (h : History) (es : List Event) : History := es.foldl add h

end History
end Bourse
