import Bourse.Feed.Trades
import Bourse.Http.Body

/-! A socket: a client that is sent every trade as a text. -/
namespace Bourse.Http

/-- What comes from a client. His end of the socket may close it, fail, or say no more. -/
inductive Incoming where
  | text (t : String)
  | bytes (bs : List UInt8)
  | ping
  | pong
  | farewell
  | broken
  | ended
deriving DecidableEq

/-- In `sent` are the texts sent so far; `live` tells whether more may follow. -/
structure Socket where
  reader : TradeReader
  sent : List String
  live : Bool
deriving DecidableEq

namespace Socket

def new (reader : TradeReader) : Socket := ⟨reader, [], true⟩

/-- A client ends its socket by a farewell, or by breaking off. Whatever else it says is ignored. -/
def hear (s : Socket) : Incoming → Socket
  | .text _ | .bytes _ | .ping | .pong => s
  | .farewell | .broken | .ended => { s with live := false }

/-- Sends the next trade, if there is one. The end of the feed ends the socket. -/
def send (s : Socket) (f : Feed Event) : Socket :=
  if s.live then
    match s.reader.next f with
    | (.item t, reader) => { s with reader, sent := s.sent ++ [t.body.text] }
    | (.closed, reader) => { s with reader, live := false }
    | (_, reader) => { s with reader }
  else s

def sendUpTo (f : Feed Event) : Nat → Socket → Socket
  | 0, s => s
  | n + 1, s => sendUpTo f n (s.send f)

def catchUp (s : Socket) (f : Feed Event) : Socket := sendUpTo f (f.ahead s.reader.place) s

end Socket
end Bourse.Http
