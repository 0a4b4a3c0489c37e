import Bourse.Feed.Basic
import Bourse.Market.Event
import Bourse.Sum

/-! The dispatcher: carries events from a feed to the handlers that asked for their kind. One task
reads the feed into a bounded queue, another works the queue off; each event goes to its handlers
one after the other. A handler that fails is noted, and nothing else comes of it. -/
namespace Bourse

/-- A handler names the kinds of events it wants. What it makes of one may depend on those it was
given before. -/
structure Handler where
  topics : List String
  respond : List Event → Event → Except String Unit

structure Dispatcher where
  handlers : List Handler
  buffer : Nat

/-- A dispatcher at work. `hand` is an event read that has not found room in the queue yet;
`delivered` tells which handler was given which event, in order. -/
structure Dispatch where
  place : Nat
  hand : Option Event
  queue : List Event
  delivered : List (Nat × Event)
  failures : List String

namespace Dispatcher

def standardBuffer : Nat := 100

def register (d : Dispatcher) (h : Handler) : Dispatcher :=
  { d with handlers := d.handlers ++ [h] }

/-- How many handlers were registered for a topic. One that names it twice counts twice. -/
def handlerCount (d : Dispatcher) (topic : String) : Nat :=
  sumOf (fun h => h.topics.count topic) d.handlers

def start (d : Dispatcher) (f : Feed Event) : Feed Event × Except NoRoom Dispatch :=
  let (f, place) := f.subscribe
  (f, (Room.ofQueue d.buffer).map fun _ => ⟨place, none, [], [], []⟩)

end Dispatcher

namespace Dispatch

/-- What a handler was given so far. -/
def given (s : Dispatch) (handler : Nat) : List Event :=
  (s.delivered.filter fun e => e.1 == handler).map (·.2)

/-- Takes the next event off the feed, unless one is still in hand. -/
def receive (s : Dispatch) (f : Feed Event) : Dispatch :=
  match s.hand with
  | some _ => s
  | none =>
    match f.read s.place with
    | (.item e, place) => { s with place, hand := some e }
    | (_, place) => { s with place }

/-- Puts the event in hand into the queue, if there is room. -/
def stow (d : Dispatcher) (s : Dispatch) : Dispatch :=
  match s.hand with
  | some e =>
    if s.queue.length < d.buffer then { s with hand := none, queue := s.queue ++ [e] } else s
  | none => s

def deliver (e : Event) (s : Dispatch) (target : Handler × Nat) : Dispatch :=
  let failures := match target.1.respond (s.given target.2) e with
    | .ok _ => s.failures
    | .error text => s.failures ++ [text]
  { s with delivered := s.delivered ++ [(target.2, e)], failures }

/-- The handlers an event goes to, each with its number, in the order of their registration. -/
def targets (d : Dispatcher) (e : Event) : List (Handler × Nat) :=
  d.handlers.zipIdx.flatMap fun t => List.replicate (t.1.topics.count e.kind.name) t

def process (d : Dispatcher) (s : Dispatch) : Dispatch :=
  match s.queue with
  | [] => s
  | e :: queue => (targets d e).foldl (deliver e) { s with queue }

def rounds (d : Dispatcher) (f : Feed Event) : Nat → Dispatch → Dispatch
  | 0, s => s
  | n + 1, s => rounds d f n (process d (stow d (s.receive f)))

/-- Until the feed is read and the queue worked off. -/
def settle (d : Dispatcher) (f : Feed Event) (s : Dispatch) : Dispatch :=
  rounds d f (f.ahead s.place + s.queue.length + 1) s

end Dispatch
end Bourse
