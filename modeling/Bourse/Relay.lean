import Bourse.Dispatcher
import Bourse.Feed.Broadcast

/-! A dispatcher at work. One task reads the feed and fills the queue, the other takes an event off
the queue and hands it to one handler after the other; their steps, and what others do at the feed,
are interleaved in any way. -/
namespace Bourse

/-- On record is what was `taken` off the queue. The last of these events is still `due` to some
handlers. -/
structure Relay where
  broadcast : Broadcast Event
  dispatch : Dispatch
  taken : List Event
  due : List (Event × Handler × Nat)

namespace Relay

inductive Act where
  | around (b : Bustle Event)
  | receive
  | stow
  | take
  | hand

def start (f : Feed Event) (s : Dispatch) : Relay := ⟨.start f, s, [], []⟩

def receive (r : Relay) : Relay :=
  match r.dispatch.hand with
  | some _ => r
  | none =>
    { r with
      broadcast := r.broadcast.look r.dispatch.place
      dispatch := r.dispatch.receive r.broadcast.feed }

/-- The next event, once the one before it has been handed out. -/
def take (d : Dispatcher) (r : Relay) : Relay :=
  match r.due, r.dispatch.queue with
  | [], e :: queue =>
    { r with
      dispatch := { r.dispatch with queue }
      taken := r.taken ++ [e]
      due := (Dispatch.targets d e).map (e, ·) }
  | _, _ => r

def hand (r : Relay) : Relay :=
  match r.due with
  | (e, target) :: due => { r with dispatch := r.dispatch.deliver e target, due }
  | [] => r

def act (d : Dispatcher) (r : Relay) : Act → Relay
  | .around b => { r with broadcast := r.broadcast.after b }
  | .receive => r.receive
  | .stow => { r with dispatch := r.dispatch.stow d }
  | .take => r.take d
  | .hand => r.hand

def run (d : Dispatcher) (r : Relay) (acts : List Act) : Relay := acts.foldl (act d) r

/-- What was read and has not been taken yet: the queue, and the event that waits for room in it. -/
def waiting (r : Relay) : List Event := r.dispatch.queue ++ r.dispatch.hand.toList

/-- What is due, in the form of what was delivered. -/
def owed (r : Relay) : List (Nat × Event) := r.due.map fun x => (x.2.2, x.1)

/-- Nothing is left to do for either task. -/
def Rests (d : Dispatcher) (r : Relay) : Prop :=
  ∀ a ∈ [Act.receive, .stow, .take, .hand], r.act d a = r

end Relay
end Bourse
