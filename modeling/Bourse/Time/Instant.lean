/-! A point in time: whole seconds from the epoch and the nanoseconds after them. Within a leap
second the nanoseconds run on past one milliard while the seconds stand. -/
namespace Bourse

structure Instant where
  second : Int
  nano : Nat
deriving DecidableEq, Inhabited

namespace Instant

def epoch : Instant := ⟨0, 0⟩

def compare (a b : Instant) : Ordering :=
  (Ord.compare a.second b.second).then (Ord.compare a.nano b.nano)

def le (a b : Instant) : Bool := (compare a b).isLE

end Instant
end Bourse
