import Bourse.Proofs.Engine.Runs

/-! Quantities of one submission. Its trades tell what the taker has lost, and the other side of the
book has lost as much. -/
namespace Bourse

section MatchQueue

variable (m : Moment) (number : Nat) (taker : Order) (os : List Order)

theorem matchQueue_taker_quantity :
    sumOf (·.trade.quantity) (matchQueue m number taker os).fills +
      (matchQueue m number taker os).taker.quantity = taker.quantity := by
  induction os generalizing number taker with
  | nil => exact Nat.zero_add _
  | cons o os ih =>
    simp only [matchQueue]
    split
    · exact Nat.zero_add _
    · split
      · have rest := ih (number + 1) (taker.afterTaking (min taker.quantity o.quantity) m.now)
        simp only [sumOf_cons, fillOf, Order.afterTaking] at rest ⊢
        omega
      · simp only [sumOf_cons, sumOf_nil, fillOf, Order.afterTaking]
        omega

theorem matchQueue_rest_quantity :
    sumOf Order.quantity (matchQueue m number taker os).rest +
      sumOf (·.trade.quantity) (matchQueue m number taker os).fills =
      sumOf Order.quantity os := by
  induction os generalizing number taker with
  | nil => rfl
  | cons o os ih =>
    simp only [matchQueue]
    split
    · rfl
    · split
      · have rest := ih (number + 1) (taker.afterTaking (min taker.quantity o.quantity) m.now)
        simp only [sumOf_cons, fillOf] at rest ⊢
        omega
      · simp only [sumOf_cons, sumOf_nil, fillOf, Order.afterFill_quantity]
        omega

/-- Each fill is one of the taker by an order of the queue, which has lost what was traded. -/
theorem of_mem_matchQueue_fills {f : Fill} (h : f ∈ (matchQueue m number taker os).fills) :
    ∃ o ∈ os, f.trade.taker = taker.id ∧ f.trade.maker = o.id ∧ f.trade.takerSide = taker.side ∧
      f.trade.quantity ≤ o.quantity ∧ f.maker = o.afterFill f.trade.quantity m.now := by
  induction os generalizing number taker with
  | nil => cases h
  | cons o os ih =>
    have first : ∃ x ∈ o :: os, (fillOf m number taker o).trade.taker = taker.id ∧
        (fillOf m number taker o).trade.maker = x.id ∧
        (fillOf m number taker o).trade.takerSide = taker.side ∧
        (fillOf m number taker o).trade.quantity ≤ x.quantity ∧ (fillOf m number taker o).maker =
          x.afterFill (fillOf m number taker o).trade.quantity m.now :=
      ⟨o, List.mem_cons_self, rfl, rfl, rfl, Nat.min_le_right _ _, rfl⟩
    simp only [matchQueue] at h
    split at h
    · cases h
    · split at h
      · rcases List.mem_cons.mp h with rfl | h
        · exact first
        · obtain ⟨x, hx, fill⟩ := ih _ _ h
          exact ⟨x, List.mem_cons_of_mem _ hx, fill⟩
      · rw [List.mem_singleton.mp h]
        exact first

end MatchQueue

theorem Execution.filled_eq (x : Execution) :
    x.filled = sumOf (·.trade.quantity) x.fills := sumOf_map _ _ _

theorem Ladder.Sound.total_eq {side : Side} {l : Ladder} (h : l.Sound side) :
    l.total = sumOf Order.quantity l.orders := h.ranked.total

namespace Engine

/-- Of whatever is submitted next the trades tell how much of it has traded, which is as much as the
other side has lost, and no more than a count can hold. -/
def Conserves (e : Engine) : Prop :=
  ∀ o m, ∃ e' r, e.submit o m = .ok (e', r) ∧ ∀ x, r = .ok x →
    x.order.size = o.quantity ∧ x.filled + x.order.quantity = x.order.size ∧
    x.filled ≤ Text.maxCount ∧
    (e'.book.ladder o.side.opposite).total + x.filled = (e.book.ladder o.side.opposite).total

variable {e e' : Engine} {o : Order} {m : Moment}

theorem matchOf_quantity (e : Engine) (o : Order) (m : Moment) :
    sumOf (·.trade.quantity) (e.matchOf o m).fills + (e.matchOf o m).taker.settled.quantity =
      o.quantity :=
  matchQueue_taker_quantity m e.nextTrade (e.takerOf o) _

theorem matchOf_size (e : Engine) (o : Order) (m : Moment) :
    (e.matchOf o m).taker.settled.size = o.quantity := by
  obtain ⟨_, _, _, -, settled⟩ := e.matchOf_settled o m
  rw [settled]

theorem Accepted.total (h : e.Sound) (a : Accepted e o (e.matchOf o m) e') :
    (e'.book.ladder o.side.opposite).total + sumOf (·.trade.quantity) (e.matchOf o m).fills =
      (e.book.ladder o.side.opposite).total := by
  rw [(a.sound.book.ladders _).total_eq, (h.book.ladders _).total_eq, a.queue]
  exact matchQueue_rest_quantity m e.nextTrade (e.takerOf o) _

/-- What is left of an order adds to its level. -/
theorem Accepted.volume (a : Accepted e o (e.matchOf o m) e') :
    restingAt o.price (e'.book.ladder o.side).orders =
      (e.matchOf o m).taker.quantity + restingAt o.price (e.book.ladder o.side).orders := by
  obtain ⟨_, _, _, -, settled⟩ := e.matchOf_settled o m
  have price : (e.matchOf o m).taker.settled.price = o.price := by rw [settled]
  rw [restingAt_perm a.own, restingAt_append, ← price, restingAt_resting]
  rfl

theorem Sound.conserves (h : e.Sound) : e.Conserves := by
  intro o m
  cases hr : e.rejection? o with
  | some reason =>
    refine ⟨e, .error reason, submit_rejected hr, ?_⟩
    intro x hx
    cases hx
  | none =>
    obtain ⟨e', hok, a⟩ := h.submit hr m
    refine ⟨e', _, hok, ?_⟩
    rintro _ ⟨⟩
    have filled := Execution.filled_eq ⟨(e.matchOf o m).taker.settled, (e.matchOf o m).fills⟩
    have quantity := e.matchOf_quantity o m
    have size := e.matchOf_size o m
    have room := (h.rejection?_none.mp hr).2.2
    dsimp only at filled ⊢
    rw [filled, size]
    exact ⟨rfl, quantity, by omega, a.total h⟩

end Engine
end Bourse
