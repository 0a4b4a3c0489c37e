/-! Room for what waits. A buffer has at least one place, if readers are to find anything in it, and
not more than can be counted or addressed. -/
namespace Bourse

inductive NoRoom where
  | emptyFeed
  | vastFeed
  | emptyQueue
  | vastQueue
  | memory
deriving DecidableEq

def NoRoom.message : NoRoom → String
  | emptyFeed => "broadcast channel capacity cannot be zero"
  | vastFeed => "broadcast channel capacity exceeded `usize::MAX / 2`"
  | emptyQueue => "mpsc bounded channel requires buffer > 0"
  | vastQueue =>
    "a semaphore may not have more than MAX_PERMITS permits (2305843009213693951)"
  | memory => "capacity overflow"

namespace Room

/-- A feed counts its places in sixty-three bits. -/
def largestFeed : Nat := 0x7FFFFFFFFFFFFFFF

/-- A queue counts its places in sixty-one bits. -/
def largestQueue : Nat := 0x1FFFFFFFFFFFFFFF

/-- Fewer events than this can be addressed, each of them taking 128 bytes. -/
def addressable : Nat := 0x100000000000000

def ofQueue (size : Nat) : Except NoRoom Unit :=
  if size = 0 then .error .emptyQueue
  else if largestQueue < size then .error .vastQueue
  else .ok ()

def ofEvents (size : Nat) : Except NoRoom Unit :=
  if size < addressable then .ok () else .error .memory

end Room
end Bourse
