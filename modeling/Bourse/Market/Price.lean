import Bourse.Decimal.Text
import Bourse.Market.Invalid
import Bourse.Market.Side

/-! Prices are positive decimals without trailing zeros, so a price has one form and equality of
prices is equality of values. -/
namespace Bourse

structure Price where
  value : Decimal
  positive : value.isPositive = true
  stripped : value.scale = 0 ∨ value.magnitude % 10 ≠ 0
deriving DecidableEq

namespace Price

def one : Price := ⟨⟨false, 1, 0, by decide, Nat.zero_le _⟩, rfl, Or.inl rfl⟩

instance : Inhabited Price := ⟨one⟩

/-- A decimal that is not positive is refused and shown as it was given. -/
def ofDecimal (d : Decimal) : Except Invalid Price :=
  if h : d.isPositive = true then
    .ok ⟨d.strip, d.isPositive_strip h, Decimal.stripParts_stripped _ _⟩
  else .error (.price d.text)

/-- Blanks around the numeral do not count. A text that is no numeral is shown with them. -/
def ofText (s : String) : Except Invalid Price :=
  match Decimal.ofText? (Text.trim s) with
  | some d => ofDecimal d
  | none => .error (.price s)

def text (p : Price) : String := p.value.text

def compare (p q : Price) : Ordering := p.value.compare q.value

def lt (p q : Price) : Prop :=
  p.value.coefficient * Text.tenTo q.value.scale < q.value.coefficient * Text.tenTo p.value.scale

instance : LT Price := ⟨lt⟩
instance : LE Price := ⟨fun p q => ¬ q < p⟩
instance (p q : Price) : Decidable (p < q) := inferInstanceAs (Decidable ((_ : Int) < _))
instance (p q : Price) : Decidable (p ≤ q) := inferInstanceAs (Decidable (¬ q < p))

def ascending (ps : List Price) : List Price :=
  ps.eraseDups.mergeSort fun p q => decide (p ≤ q)

end Price

namespace Side

/-- Of two prices resting on a side, the one that trades first. -/
def better (side : Side) (p q : Price) : Bool :=
  match side with
  | buy => decide (q < p)
  | sell => decide (p < q)

/-- An order of this side and limit trades against what rests at a price. -/
def crosses (taker : Side) (limit resting : Price) : Bool :=
  match taker with
  | buy => decide (resting ≤ limit)
  | sell => decide (limit ≤ resting)

end Side
end Bourse
