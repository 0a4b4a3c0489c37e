/-! The stages of an order's life. Filled and cancelled are its ends. -/
namespace Bourse

inductive Status where
  | opened
  | partlyFilled
  | filled
  | cancelled
deriving DecidableEq, Inhabited

namespace Status

def isTerminal : Status → Bool
  | filled | cancelled => true
  | opened | partlyFilled => false

def name : Status → String
  | opened => "OPEN"
  | partlyFilled => "PARTIAL"
  | filled => "FILLED"
  | cancelled => "CANCELLED"

def all : List Status := [opened, partlyFilled, filled, cancelled]

def ofName? (name : String) : Option Status := all.find? (·.name == name)

end Status
end Bourse
