import Bourse.Http.Message

/-! The handshake that turns a connection into a socket. -/
namespace Bourse.Http

/-- A request to become a socket has to say so in four headers. -/
inductive HandshakeFault where
  | method
  | connection
  | upgrade
  | version
  | key
  /-- The connection cannot become anything else. -/
  | rigid
deriving DecidableEq

namespace HandshakeFault

def status : HandshakeFault → Nat
  | method => 405
  | rigid => 426
  | connection | upgrade | version | key => 400

def text : HandshakeFault → String
  | method => "Request method must be `GET`"
  | connection => "Connection header did not include 'upgrade'"
  | upgrade => "`Upgrade` header did not include 'websocket'"
  | version => "`Sec-WebSocket-Version` header did not include '13'"
  | key => "`Sec-WebSocket-Key` header missing"
  | rigid => "WebSocket request couldn't be upgraded since no upgrade state was present"

def response (f : HandshakeFault) : Response := .plain f.status f.text

end HandshakeFault

namespace Request

def hasInfix (word : List Char) : List Char → Bool
  | [] => word.isEmpty
  | c :: cs => word.isPrefixOf (c :: cs) || hasInfix word cs

def mentions (r : Request) (name word : String) : Bool :=
  (r.header? name).any fun v => hasInfix word.toList (Text.lowerAscii v).toList

def states (r : Request) (name value : String) : Bool :=
  (r.header? name).any fun v => Text.lowerAscii v == value

/-- What keeps a request from opening a socket. -/
def handshakeFault (r : Request) : HandshakeFault :=
  if r.method ≠ .get then .method
  else if !r.mentions "connection" "upgrade" then .connection
  else if !r.states "upgrade" "websocket" then .upgrade
  else if !r.states "sec-websocket-version" "13" then .version
  else if (r.header? "sec-websocket-key").isNone then .key
  else .rigid

end Request
end Bourse.Http
