import Bourse.Feed.Watch
import Bourse.Http.Socket

/-! A socket at work. It waits for the next trade and for what its client says, whichever comes
first, and what it has waited for in vain is given up. While a trade is being sent it does neither,
and the sending may fail. -/
namespace Bourse.Http

/-- In `hand` is the trade being sent. -/
structure Stream where
  watch : Watch
  hand : Option Trade
  sent : List String
  live : Bool

namespace Stream

inductive Act where
  | around (b : Bustle Event)
  | look
  | hear (said : Incoming)
  | deliver
  | fail

def start (f : Feed Event) : Stream := ⟨.start f, none, [], true⟩

def socket (s : Stream) : Socket := ⟨s.watch.reader, s.sent, s.live⟩

/-- Neither over nor busy with sending. -/
def waits (s : Stream) : Bool := s.live && s.hand.isNone

def look (s : Stream) : Stream :=
  match s.watch.ask.look with
  | (.item t, watch) => { s with watch, hand := some t }
  | (.closed, watch) => { s with watch, live := false }
  | (_, watch) => { s with watch }

def hear (s : Stream) (said : Incoming) : Stream :=
  { s with watch := s.watch.abandon, live := (s.socket.hear said).live }

/-- What happens at the feed once the socket has ended does not matter here. -/
def act (s : Stream) : Act → Stream
  | .around b => if s.live then { s with watch := s.watch.after b } else s
  | .look => if s.waits then s.look else s
  | .hear said => if s.waits then s.hear said else s
  | .deliver =>
    match s.hand with
    | some t => if s.live then { s with hand := none, sent := s.sent ++ [t.body.text] } else s
    | none => s
  | .fail => if s.hand.isSome then { s with live := false } else s

def run (s : Stream) (acts : List Act) : Stream := acts.foldl act s

end Stream
end Bourse.Http
