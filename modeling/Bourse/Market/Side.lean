import Bourse.Text.Blank

/-! The two sides of the market. -/
namespace Bourse

inductive Side where
  | buy
  | sell
deriving DecidableEq, Inhabited

namespace Side

def opposite : Side → Side
  | buy => sell
  | sell => buy

def name : Side → String
  | buy => "BUY"
  | sell => "SELL"

/-- The side a free text names: blanks around it and the case of ASCII letters do not count. -/
def ofText? (s : String) : Option Side :=
  let t := Text.upperAscii (Text.trim s)
  if t = "BUY" then some buy else if t = "SELL" then some sell else none

end Side
end Bourse
