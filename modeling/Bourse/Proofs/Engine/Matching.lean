import Bourse.Engine.Basic
import Bourse.Proofs.Book.Basic

/-! Matching, seen as a walk along the queue of the other side. On a sound engine the loop that asks
the book for its best order before each fill does what `matchQueue` does to the list of the orders
of that side, and touches nothing else. -/
namespace Bourse

def fillOf (m : Moment) (number : Nat) (taker maker : Order) : Fill :=
  let quantity := min taker.quantity maker.quantity
  { trade :=
      { id := m.tradeId number, sequence := number, taker := taker.id, maker := maker.id
        takerSide := taker.side, price := maker.price, quantity, createdAt := m.now }
    maker := maker.afterFill quantity m.now }

def Order.afterTaking (o : Order) (quantity : Nat) (now : Instant) : Order :=
  { o with quantity := o.quantity - quantity, updatedAt := now }

@[simp] theorem Order.afterTaking_side (o : Order) (quantity : Nat) (now : Instant) :
    (o.afterTaking quantity now).side = o.side := rfl

/-- What comes of a taker that meets a queue. -/
structure Matched where
  taker : Order
  fills : List Fill
  rest : List Order

/-- The taker trades against one order after the other until it is spent or one does not cross. -/
def matchQueue (m : Moment) : Nat → Order → List Order → Matched
  | _, taker, [] => ⟨taker, [], []⟩
  | number, taker, o :: os =>
    if taker.quantity = 0 ∨ taker.side.crosses taker.price o.price = false then
      ⟨taker, [], o :: os⟩
    else
      let fill := fillOf m number taker o
      let taker' := taker.afterTaking (min taker.quantity o.quantity) m.now
      if o.quantity ≤ taker.quantity then
        let r := matchQueue m (number + 1) taker' os
        { r with fills := fill :: r.fills }
      else ⟨taker', [fill], fill.maker :: os⟩

section MatchQueue

variable {m : Moment} {number : Nat} {taker o : Order} {os : List Order}

theorem matchQueue_spent (h : taker.quantity = 0) :
    matchQueue m number taker os = ⟨taker, [], os⟩ := by
  cases os with
  | nil => rfl
  | cons o os => simp [matchQueue, h]

theorem matchQueue_apart (h : taker.side.crosses taker.price o.price = false) :
    matchQueue m number taker (o :: os) = ⟨taker, [], o :: os⟩ := by
  simp [matchQueue, h]

theorem matchQueue_fill (left : taker.quantity ≠ 0)
    (crosses : taker.side.crosses taker.price o.price = true) :
    matchQueue m number taker (o :: os) =
      let quantity := min taker.quantity o.quantity
      let r := matchQueue m (number + 1) (taker.afterTaking quantity m.now)
        (fillHead o quantity m.now os)
      { r with fills := fillOf m number taker o :: r.fills } := by
  simp only [matchQueue, left, crosses, Bool.true_eq_false, or_self, if_false]
  by_cases spent : o.quantity ≤ taker.quantity
  · rw [if_pos spent, fillHead, if_pos (by omega)]
  · have done : (taker.afterTaking (min taker.quantity o.quantity) m.now).quantity = 0 := by
      simp only [Order.afterTaking]
      omega
    rw [if_neg spent, fillHead, if_neg (by omega), matchQueue_spent done]
    rfl

theorem matchQueue_taker (m : Moment) (number : Nat) (taker : Order) (os : List Order) :
    ∃ quantity updatedAt, quantity ≤ taker.quantity ∧
      (matchQueue m number taker os).taker = { taker with quantity, updatedAt } := by
  induction os generalizing number taker with
  | nil => exact ⟨taker.quantity, taker.updatedAt, Nat.le_refl _, rfl⟩
  | cons o os ih =>
    simp only [matchQueue]
    split
    · exact ⟨taker.quantity, taker.updatedAt, Nat.le_refl _, rfl⟩
    · split
      · obtain ⟨q, t, hq, h⟩ := ih (number + 1)
          (taker.afterTaking (min taker.quantity o.quantity) m.now)
        exact ⟨q, t, Nat.le_trans hq (Nat.sub_le _ _), h⟩
      · exact ⟨_, _, Nat.sub_le _ _, rfl⟩

/-- A change of orders that leaves quantities alone, and with them who crosses whom, goes along with
a match as it goes along with each fill. -/
theorem matchQueue_map {g : Order → Order} {k : Fill → Fill} {m m' : Moment}
    (quantity : ∀ o, (g o).quantity = o.quantity)
    (taking : ∀ t q, (g t).afterTaking q m'.now = g (t.afterTaking q m.now))
    (filling : ∀ n t o, fillOf m' n (g t) (g o) = k (fillOf m n t o))
    (maker : ∀ f, (k f).maker = g f.maker) (number : Nat) (taker : Order) (os : List Order)
    (crosses : ∀ o ∈ os, (g taker).side.crosses (g taker).price (g o).price =
      taker.side.crosses taker.price o.price) :
    matchQueue m' number (g taker) (os.map g) =
      let r := matchQueue m number taker os
      ⟨g r.taker, r.fills.map k, r.rest.map g⟩ := by
  induction os generalizing number taker with
  | nil => rfl
  | cons o os ih =>
    have first := crosses o List.mem_cons_self
    simp only [matchQueue, List.map_cons, quantity, first, taking, filling, maker]
    by_cases stop : taker.quantity = 0 ∨ taker.side.crosses taker.price o.price = false
    · rw [if_pos stop, if_pos stop]
      rfl
    · rw [if_neg stop, if_neg stop]
      by_cases spent : o.quantity ≤ taker.quantity
      · -- The taker keeps its side and its limit, so what crossed it crosses what is left of it.
        have same : ∀ x ∈ os,
            (g (taker.afterTaking (min taker.quantity o.quantity) m.now)).side.crosses
            (g (taker.afterTaking (min taker.quantity o.quantity) m.now)).price (g x).price =
            taker.side.crosses taker.price x.price := by
          intro x hx
          rw [← taking]
          exact crosses x (List.mem_cons_of_mem _ hx)
        rw [if_pos spent, if_pos spent, ih (number + 1) _ same]
        rfl
      · rw [if_neg spent, if_neg spent]
        rfl

/-- What is left of the queue is a part of it, in all that a fill leaves alone. -/
theorem matchQueue_rest_sublist {α : Type} (f : Order → α)
    (same : ∀ o quantity now, f (o.afterFill quantity now) = f o) (m : Moment) (number : Nat)
    (taker : Order) (os : List Order) :
    ((matchQueue m number taker os).rest.map f).Sublist (os.map f) := by
  induction os generalizing number taker with
  | nil => exact .slnil
  | cons o os ih =>
    simp only [matchQueue]
    split
    · exact .refl _
    · split
      · exact (ih _ _).cons _
      · simp [fillOf, same]

theorem matchQueue_sequences (m : Moment) (number : Nat) (taker : Order) (os : List Order) :
    (matchQueue m number taker os).fills.map (·.trade.sequence) =
      List.range' number (matchQueue m number taker os).fills.length := by
  induction os generalizing number taker with
  | nil => rfl
  | cons o os ih =>
    simp only [matchQueue]
    split
    · rfl
    · split
      · simp only [List.map_cons, List.length_cons, List.range'_succ, ih]
        rfl
      · rfl

theorem matchQueue_makers (m : Moment) (number : Nat) (taker : Order) (os : List Order) :
    (matchQueue m number taker os).fills.map (·.maker.id) <+: os.map (·.id) := by
  induction os generalizing number taker with
  | nil => exact List.prefix_rfl
  | cons o os ih =>
    simp only [matchQueue]
    split
    · exact List.nil_prefix
    · split
      · exact List.cons_prefix_cons.mpr ⟨rfl, ih _ _⟩
      · exact List.cons_prefix_cons.mpr ⟨rfl, List.nil_prefix⟩

/-- What is left of the queue is what is left of its makers, and all the others. -/
theorem mem_matchQueue_rest (m : Moment) (number : Nat) (taker : Order) {os : List Order}
    (ids : (os.map (·.id)).Nodup) (x : Order) :
    let r := matchQueue m number taker os
    x ∈ r.rest ↔ (x ∈ r.fills.map (·.maker) ∧ x.status.isTerminal = false) ∨
      (x ∈ os ∧ x.id ∉ r.fills.map (·.maker.id)) := by
  induction os generalizing number taker with
  | nil => simp [matchQueue]
  | cons o os ih =>
    have parts := List.nodup_cons.mp ids
    have others : ∀ y ∈ os, y.id ≠ o.id := fun y hy same =>
      parts.1 (List.mem_map.mpr ⟨y, hy, same⟩)
    simp only [matchQueue]
    split
    · simp
    · rename_i go
      split
      · rename_i spent
        have ended : (fillOf m number taker o).maker.status.isTerminal = true := by
          simp only [fillOf, Order.afterFill]
          rw [if_pos (by omega)]
          rfl
        apply (ih _ _ parts.2).trans
        simp only [List.map_cons, List.mem_cons, not_or]
        constructor
        · rintro (⟨hx, live⟩ | ⟨hx, fresh⟩)
          · exact .inl ⟨.inr hx, live⟩
          · exact .inr ⟨.inr hx, others x hx, fresh⟩
        · rintro (⟨rfl | hx, live⟩ | ⟨rfl | hx, ne, fresh⟩)
          · simp [ended] at live
          · exact .inl ⟨hx, live⟩
          · exact absurd rfl ne
          · exact .inr ⟨hx, fresh⟩
      · rename_i more
        have live : (fillOf m number taker o).maker.status.isTerminal = false := by
          simp only [fillOf, Order.afterFill]
          rw [if_neg (by omega)]
          rfl
        simp only [List.map_cons, List.map_nil, List.mem_cons, List.not_mem_nil, or_false]
        constructor
        · rintro (rfl | hx)
          · exact .inl ⟨rfl, live⟩
          · exact .inr ⟨.inr hx, others x hx⟩
        · rintro (⟨rfl, -⟩ | ⟨rfl | hx, ne⟩)
          · exact .inl rfl
          · exact absurd rfl ne
          · exact .inr hx

end MatchQueue

namespace Engine

structure Sound (e : Engine) : Prop where
  book : e.book.Sound
  sequences : (e.book.orders.map (·.sequence)).Nodup
  numbered : ∀ o ∈ e.book.orders, 0 < o.sequence ∧ o.sequence < e.nextSequence
  started : 0 < e.nextSequence

variable {e : Engine} {t o : Order} {os : List Order} {m : Moment}

theorem Sound.early (h : e.Sound) {side : Side} (here : o ∈ (e.book.ladder side).orders) :
    o.sequence < e.nextSequence :=
  (h.numbered o (Book.mem_of_ladder here)).2

theorem Sound.of_sublist (h : e.Sound) {e' : Engine} (book : e'.book.Sound) (side : Side)
    (other : e'.book.ladder side.opposite = e.book.ladder side.opposite)
    (part : ((e'.book.ladder side).orders.map (·.sequence)).Sublist
      ((e.book.ladder side).orders.map (·.sequence)))
    (counter : e.nextSequence ≤ e'.nextSequence) : e'.Sound := by
  have perm := (Book.orders_perm e.book side).map (·.sequence)
  have perm' := (Book.orders_perm e'.book side).map (·.sequence)
  rw [List.map_append] at perm perm'
  rw [other] at perm'
  have sub := part.append_right ((e.book.ladder side.opposite).orders.map (·.sequence))
  refine ⟨book, perm'.nodup_iff.mpr ((perm.nodup_iff.mp h.sequences).sublist sub), ?_,
    Nat.lt_of_lt_of_le h.started counter⟩
  intro o ho
  have hs := perm.mem_iff.mpr (sub.subset (perm'.mem_iff.mp (List.mem_map_of_mem ho)))
  obtain ⟨x, hx, same⟩ := List.mem_map.mp hs
  have bounds := h.numbered x hx
  omega

/-- What fills leave of an engine: the queue that they went along is cut, the taker's own side is as
it was. -/
structure SweptTo (e : Engine) (side : Side) (r : Matched) (e' : Engine) : Prop where
  sound : e'.Sound
  queue : (e'.book.ladder side.opposite).orders = r.rest
  own : e'.book.ladder side = e.book.ladder side
  nextSequence : e'.nextSequence = e.nextSequence
  nextTrade : e'.nextTrade = e.nextTrade + r.fills.length

theorem Sound.fillOnce_none (h : e.Sound)
    (stop : t.quantity = 0 ∨ (e.book.ladder t.side.opposite).orders = [] ∨
      ∃ o os, (e.book.ladder t.side.opposite).orders = o :: os ∧
        t.side.crosses t.price o.price = false) :
    e.fillOnce t m = .ok none := by
  have best := (h.book.ladders t.side.opposite).best
  unfold fillOnce
  by_cases spent : t.quantity = 0
  · simp [spent]
  · rcases stop with hq | hn | ⟨o, os, hs, hc⟩
    · exact absurd hq spent
    · simp [spent, Book.best, best, hn]
    · simp [spent, Book.best, best, hs, hc]

theorem Sound.fillOnce (h : e.Sound) (left : t.quantity ≠ 0)
    (head : (e.book.ladder t.side.opposite).orders = o :: os)
    (crosses : t.side.crosses t.price o.price = true) (m : Moment) :
    ∃ e', e.fillOnce t m = .ok (some (e', t.afterTaking (min t.quantity o.quantity) m.now,
        fillOf m e.nextTrade t o)) ∧
      SweptTo e t.side ⟨t.afterTaking (min t.quantity o.quantity) m.now,
        [fillOf m e.nextTrade t o], fillHead o (min t.quantity o.quantity) m.now os⟩ e' := by
  obtain ⟨b', hok, sound, other, orders⟩ :=
    h.book.fillBest head (Nat.min_le_right t.quantity o.quantity) m.now
  have best := (h.book.ladders t.side.opposite).best
  refine ⟨{ e with book := b', nextTrade := e.nextTrade + 1 }, ?_, ?_, orders,
    by simpa using other, rfl, rfl⟩
  · simp [Engine.fillOnce, left, Book.best, best, head, crosses, hok, Order.fill, fillOf,
      Order.afterTaking]
  · refine h.of_sublist sound t.side.opposite other ?_ (Nat.le_refl _)
    simp only [orders, head, fillHead]
    split <;> simp

/-- The loop on the engine is the walk along the queue, if it may take enough turns. -/
theorem Sound.sweep (h : e.Sound) (n : Nat) (m : Moment)
    (enough : t.quantity = 0 ∨ (e.book.ladder t.side.opposite).orders.length < n) :
    ∃ e', let r := matchQueue m e.nextTrade t (e.book.ladder t.side.opposite).orders
      Engine.sweep n e t m = .ok (e', r.taker, r.fills) ∧ SweptTo e t.side r e' := by
  induction n generalizing e t with
  | zero =>
    rw [matchQueue_spent (enough.resolve_right (Nat.not_lt_zero _))]
    exact ⟨e, rfl, h, rfl, rfl, rfl, rfl⟩
  | succ n ih =>
    cases hs : (e.book.ladder t.side.opposite).orders with
    | nil =>
      have stop := h.fillOnce_none (m := m) (.inr (.inl hs))
      exact ⟨e, by simp [Engine.sweep, stop, matchQueue], h, hs, rfl, rfl, rfl⟩
    | cons o os =>
      by_cases left : t.quantity = 0
      · have stop := h.fillOnce_none (m := m) (.inl left)
        rw [matchQueue_spent left]
        exact ⟨e, by simp [Engine.sweep, stop], h, hs, rfl, rfl, rfl⟩
      · cases crosses : t.side.crosses t.price o.price with
        | false =>
          have stop := h.fillOnce_none (m := m) (.inr (.inr ⟨o, os, hs, crosses⟩))
          rw [matchQueue_apart crosses]
          exact ⟨e, by simp [Engine.sweep, stop], h, hs, rfl, rfl, rfl⟩
        | true =>
          obtain ⟨e₁, hok, one⟩ := h.fillOnce left hs crosses m
          -- A fill takes the maker out of the queue or uses up the taker.
          have fewer : (t.afterTaking (min t.quantity o.quantity) m.now).quantity = 0 ∨
              (e₁.book.ladder t.side.opposite).orders.length < n := by
            simp only [hs, List.length_cons] at enough
            simp only [one.queue, fillHead, Order.afterTaking]
            by_cases spent : o.quantity ≤ t.quantity
            · rw [if_pos (by omega)]
              omega
            · omega
          obtain ⟨e₂, hok₂, more⟩ := ih one.sound fewer
          simp only [Order.afterTaking_side, one.queue, one.nextTrade, List.length_singleton]
            at hok₂ more
          rw [matchQueue_fill left crosses]
          refine ⟨e₂, by simp [Engine.sweep, hok, hok₂], more.sound, more.queue,
            more.own.trans one.own, more.nextSequence.trans one.nextSequence, ?_⟩
          rw [more.nextTrade, one.nextTrade]
          simp only [List.length_cons, List.length_nil]
          omega

end Engine
end Bourse
