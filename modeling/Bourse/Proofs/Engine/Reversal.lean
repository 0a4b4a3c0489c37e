import Bourse.Proofs.Book.Image
import Bourse.Proofs.Engine.Runs

/-! Reversal of the market: buyers become sellers and the order of prices is turned round. What two
prices are to each other on one side is what their images are on the other, so a queue is matched
the same way. -/
namespace Bourse

section Reflected

variable (f : Price → Price)

def Order.reflected (o : Order) : Order := { o with side := o.side.opposite, price := f o.price }

def Trade.reflected (t : Trade) : Trade :=
  { t with takerSide := t.takerSide.opposite, price := f t.price }

def Fill.reflected (x : Fill) : Fill := ⟨x.trade.reflected f, x.maker.reflected f⟩

def Execution.reflected (x : Execution) : Execution :=
  ⟨x.order.reflected f, x.fills.map (·.reflected f)⟩

def Refusal.reflected : Refusal → Refusal
  | .overflow id price => .overflow id (f price)
  | r => r

def Rejection.reflected : Rejection → Rejection
  | .overflow id price => .overflow id (f price)
  | .refused r => .refused (r.reflected f)
  | r => r

def Outcome.reflected : Outcome → Outcome
  | .submitted (.error r) => .submitted (.error (r.reflected f))
  | .submitted (.ok x) => .submitted (.ok (x.reflected f))
  | .cancelled o => .cancelled (o.map (·.reflected f))
  | .restored placed => .restored (placed.map (·.reflected f))
  | .resumed => .resumed

def Step.reflected : Step → Step
  | .instruct (.submit o m) => .instruct (.submit (o.reflected f) m)
  | .instruct (.cancel id now) => .instruct (.cancel id now)
  | .restore os => .restore (os.map (·.reflected f))
  | .resume last => .resume last

def Ladder.reflected (l : Ladder) : Ladder := l.image (·.reflected f) f l.side.opposite

def DepthLevel.reflected (l : DepthLevel) : DepthLevel := { l with price := f l.price }

def Depth.reflected (d : Depth) : Depth :=
  ⟨d.asks.map (·.reflected f), d.bids.map (·.reflected f), d.time⟩

end Reflected

/-- The prices of the orders that a call brings. -/
def Step.prices : Step → List Price
  | .instruct (.submit o _) => [o.price]
  | .restore os => os.map (·.price)
  | _ => []

/-- Of any two of these prices the larger one is taken to the smaller one. -/
def Reverses (f : Price → Price) (ps : List Price) : Prop :=
  ∀ p ∈ ps, ∀ q ∈ ps, p < q → f q < f p

instance (f : Price → Price) (ps : List Price) : Decidable (Reverses f ps) :=
  inferInstanceAs (Decidable (∀ p ∈ ps, ∀ q ∈ ps, p < q → f q < f p))

namespace Reverses

variable {f : Price → Price} {ps : List Price} {p q : Price}

theorem lt_iff (r : Reverses f ps) (hp : p ∈ ps) (hq : q ∈ ps) : f q < f p ↔ p < q := by
  constructor
  · intro less
    by_contra notLess
    by_cases same : p = q
    · exact Price.lt_irrefl _ (same ▸ less)
    · have other := r q hq p hp ((Price.lt_total same).resolve_left notLess)
      exact Price.lt_irrefl _ (Price.lt_trans less other)
  · exact r p hp q hq

theorem beq_eq (r : Reverses f ps) (hp : p ∈ ps) (hq : q ∈ ps) : (f p == f q) = (p == q) := by
  by_cases same : p = q
  · simp [same]
  · have apart : f p ≠ f q := by
      intro eq
      rcases Price.lt_total same with less | less
      · exact Price.lt_irrefl _ (eq ▸ r p hp q hq less)
      · exact Price.lt_irrefl _ (eq ▸ r q hq p hp less)
    rw [beq_false_of_ne same, beq_false_of_ne apart]

theorem better_eq (r : Reverses f ps) (side : Side) (hp : p ∈ ps) (hq : q ∈ ps) :
    side.opposite.better (f p) (f q) = side.better p q := by
  cases side with
  | buy => exact decide_eq_decide.mpr (r.lt_iff hq hp)
  | sell => exact decide_eq_decide.mpr (r.lt_iff hp hq)

theorem crosses_eq (r : Reverses f ps) (side : Side) (hp : p ∈ ps) (hq : q ∈ ps) :
    side.opposite.crosses (f p) (f q) = side.crosses p q := by
  rw [Side.crosses_eq, Side.crosses_eq, r.better_eq side.opposite hp hq]

theorem carries (r : Reverses f ps) (side : Side) {os : List Order}
    (priced : ∀ o ∈ os, o.price ∈ ps) :
    Order.Carries (·.reflected f) f side side.opposite os where
  own _ _ mine := congrArg Side.opposite mine
  price _ := rfl
  quantity _ := rfl
  inTurn _ _ less := less
  better a ha b hb better := by
    rw [r.better_eq side (priced a ha) (priced b hb)]
    exact better

theorem restingAt (r : Reverses f ps) (hp : p ∈ ps) {os : List Order}
    (priced : ∀ o ∈ os, o.price ∈ ps) :
    restingAt (f p) (os.map (·.reflected f)) = restingAt p os := by
  have same : os.filter ((· == f p) ∘ fun o => f o.price) = os.filter (·.price == p) :=
    List.filter_congr fun o ho => r.beq_eq (priced o ho) hp
  rw [Bourse.restingAt, List.filter_map, sumOf_map]
  exact congrArg (sumOf Order.quantity) same

theorem matchQueue (r : Reverses f ps) (m : Moment) (n : Nat) {t : Order} (limit : t.price ∈ ps)
    {os : List Order} (priced : ∀ o ∈ os, o.price ∈ ps) :
    matchQueue m n (t.reflected f) (os.map (·.reflected f)) =
      let x := matchQueue m n t os
      ⟨x.taker.reflected f, x.fills.map (·.reflected f), x.rest.map (·.reflected f)⟩ := by
  refine matchQueue_map ?_ ?_ ?_ ?_ n t os ?_
  · exact fun _ => rfl
  · exact fun _ _ => rfl
  · exact fun _ _ _ => rfl
  · exact fun _ => rfl
  · exact fun o ho => r.crosses_eq t.side limit (priced o ho)

end Reverses

theorem Order.resting_reflected (f : Price → Price) (o : Order) :
    (o.reflected f).resting = o.resting.map (·.reflected f) := by
  unfold resting
  change (if o.quantity = 0 then _ else _) = _
  split <;> rfl

theorem Order.settled_reflected (f : Price → Price) (o : Order) :
    (o.reflected f).settled = o.settled.reflected f := rfl

/-- Sorting looks at sequences and times only. -/
theorem mergeSort_reflected (f : Price → Price) (os : List Order) :
    (os.map (·.reflected f)).mergeSort Order.comesBefore =
      (os.mergeSort Order.comesBefore).map (·.reflected f) :=
  (List.map_mergeSort (r := Order.comesBefore) (f := Order.reflected f) fun _ _ _ _ => rfl).symm

end Bourse
