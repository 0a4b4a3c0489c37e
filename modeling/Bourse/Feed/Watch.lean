import Bourse.Feed.Broadcast
import Bourse.Feed.Trades

/-! A reader of trades at work. He asks for the next trade and looks at the feed until he finds one;
between any two looks other things happen, or he gives up waiting. -/
namespace Bourse

/-- `asking` while a call waits for the next trade; `trades` are those that calls have returned. -/
structure Watch where
  broadcast : Broadcast Event
  reader : TradeReader
  asking : Bool
  trades : List Trade

namespace Watch

inductive Act where
  | around (b : Bustle Event)
  | ask
  | look
  | abandon

def start (f : Feed Event) : Watch := ⟨.start f, f.subscribeTrades.2, false, []⟩

def after (w : Watch) (b : Bustle Event) : Watch := { w with broadcast := w.broadcast.after b }

def ask (w : Watch) : Watch := { w with asking := true }

/-- A call keeps nothing for itself, so nothing goes with it. -/
def abandon (w : Watch) : Watch := { w with asking := false }

/-- One look at the feed. A trade is returned, and so is the end of the feed. -/
def look (w : Watch) : Found Trade × Watch :=
  let broadcast := w.broadcast.look w.reader.place
  match w.reader.seek w.broadcast.feed 1 with
  | (.item t, reader) => (.item t, ⟨broadcast, reader, false, w.trades ++ [t]⟩)
  | (.closed, reader) => (.closed, { w with broadcast, reader, asking := false })
  | (found, reader) => (found, { w with broadcast, reader })

def act (w : Watch) : Act → Watch
  | .around b => w.after b
  | .ask => w.ask
  | .look => if w.asking then w.look.2 else w
  | .abandon => w.abandon

def run (w : Watch) (acts : List Act) : Watch := acts.foldl act w

end Watch
end Bourse
