import Bourse.Http.Api

/-! The service: requests are answered, and sockets are sent the trades that come of them. -/
namespace Bourse.Http

/-- A socket keeps its number, though its client may have gone. -/
structure Service where
  api : Api
  sockets : List Socket

namespace Service

def new (api : Api) : Service := ⟨api, []⟩

def catchUp (s : Service) : Service :=
  { s with sockets := s.sockets.map (·.catchUp s.api.desk.feed) }

def answer (s : Service) (c : Occasion) (r : Request) : Except Fault (Service × Response) :=
  (s.api.answer c r).map fun (api, response) => (({ s with api } : Service).catchUp, response)

/-- The number of the new socket comes with it. -/
def openSocket (s : Service) : Service × Nat :=
  let (api, socket) := s.api.openSocket
  ({ api, sockets := s.sockets ++ [socket] }, s.sockets.length)

/-- A client says something to its socket. Once a socket has ended, the feed is rid of it. -/
def hear (s : Service) (n : Nat) (said : Incoming) : Service :=
  match s.sockets[n]? with
  | none => s
  | some socket =>
    let after := socket.hear said
    { api := if socket.live && !after.live then s.api.closeSocket else s.api
      sockets := s.sockets.set n after }

def sent (s : Service) (n : Nat) : List String := (s.sockets[n]?.map (·.sent)).getD []

end Service
end Bourse.Http
