import Bourse.Proofs.Engine.Counters

/-! Priority and limits, fill by fill. Every fill of a submission is looked at in the state that it
is made in: its maker stands first on its side by price and then by time, and the price is within
both limits. -/
namespace Bourse

/-- A fill of the taker by an order that rests, from the state before it to the state after it. -/
structure Fair (b : Engine) (taker maker : Order) (f : Fill) (b' : Engine) : Prop where
  rests : maker ∈ b.book.orders ∧ maker.side = taker.side.opposite
  best : ∀ x ∈ b.book.orders, x.side = maker.side → maker.side.better x.price maker.price = false
  first : ∀ x ∈ b.book.orders, x.side = maker.side → x.price = maker.price → x ≠ maker →
    maker.sequence < x.sequence
  parties : f.trade.taker = taker.id ∧ f.trade.maker = maker.id
  price : f.trade.price = maker.price
  limits : ∃ bid ask, (bid = taker ∧ ask = maker ∨ bid = maker ∧ ask = taker) ∧
    bid.side = .buy ∧ ask.side = .sell ∧ f.trade.buyer = bid.id ∧ f.trade.seller = ask.id ∧
    f.trade.price ≤ bid.price ∧ ask.price ≤ f.trade.price
  quantity : 0 < f.trade.quantity ∧ f.trade.quantity = min taker.quantity maker.quantity
  /-- What is left of the maker keeps its sequence and its place in front of all others. -/
  place : ∃ others, (b.book.ladder maker.side).orders = maker :: others ∧
    (b'.book.ladder maker.side).orders =
      if f.trade.quantity = maker.quantity then others
      else { maker with
        quantity := maker.quantity - f.trade.quantity
        status := .partlyFilled
        updatedAt := f.trade.createdAt } :: others

theorem matchQueue_filled {m : Moment} {n : Nat} {t : Order} {os : List Order} {f : Fill}
    {fs : List Fill}
    (h : (matchQueue m n t os).fills = f :: fs) :
    ∃ o rest, os = o :: rest ∧ t.quantity ≠ 0 ∧ t.side.crosses t.price o.price = true ∧
      fillOf m n t o = f ∧
      fs = (matchQueue m (n + 1) (t.afterTaking (min t.quantity o.quantity) m.now)
        (fillHead o (min t.quantity o.quantity) m.now rest)).fills := by
  cases os with
  | nil => cases h
  | cons o rest =>
    by_cases left : t.quantity = 0
    · rw [matchQueue_spent left] at h
      cases h
    · cases crosses : t.side.crosses t.price o.price with
      | false =>
        rw [matchQueue_apart crosses] at h
        cases h
      | true =>
        rw [matchQueue_fill left crosses] at h
        obtain ⟨first, others⟩ := List.cons.inj h
        exact ⟨o, rest, rfl, left, crosses, first, others.symm⟩

namespace Engine

/-- Some fills of a taker, one after the other, with the state and the taker that they lead to. -/
inductive Filled (m : Moment) : Engine → Order → List Fill → Engine → Order → Prop where
  | nil {e : Engine} {t : Order} : Filled m e t [] e t
  | cons {e e₁ e' : Engine} {t t₁ t' : Order} {f : Fill} {fs : List Fill} :
      e.fillOnce t m = .ok (some (e₁, t₁, f)) → Filled m e₁ t₁ fs e' t' →
      Filled m e t (f :: fs) e' t'

variable {e b : Engine} {t o : Order} {os : List Order} {m : Moment} {f : Fill}

theorem fair_limits {n : Nat} (opposite : o.side = t.side.opposite)
    (crosses : t.side.crosses t.price o.price = true) :
    let f := fillOf m n t o
    ∃ bid ask, (bid = t ∧ ask = o ∨ bid = o ∧ ask = t) ∧ bid.side = .buy ∧ ask.side = .sell ∧
      f.trade.buyer = bid.id ∧ f.trade.seller = ask.id ∧
      f.trade.price ≤ bid.price ∧ ask.price ≤ f.trade.price := by
  have same : o.price ≤ o.price := Price.lt_irrefl o.price
  cases ht : t.side with
  | buy =>
    rw [ht] at opposite crosses
    have limit : o.price ≤ t.price := of_decide_eq_true crosses
    exact ⟨t, o, .inl ⟨rfl, rfl⟩, ht, opposite, by simp [fillOf, Trade.buyer, ht],
      by simp [fillOf, Trade.seller, ht], limit, same⟩
  | sell =>
    rw [ht] at opposite crosses
    have limit : t.price ≤ o.price := of_decide_eq_true crosses
    exact ⟨o, t, .inr ⟨rfl, rfl⟩, opposite, ht, by simp [fillOf, Trade.buyer, ht],
      by simp [fillOf, Trade.seller, ht], same, limit⟩

/-- The first of a queue is ahead of all others of its side. -/
theorem Sound.ahead_of_head (h : b.Sound) {side : Side}
    (head : (b.book.ladder side).orders = o :: os) :
    ∀ x ∈ b.book.orders, x.side = side → x = o ∨ o.ahead side x := by
  intro x hx same
  have there := h.book.mem_orders.mp hx
  have inTurn := (h.book.ladders side).pairwise
  rw [same, head] at there
  rw [head] at inTurn
  exact (List.mem_cons.mp there).imp_right ((List.pairwise_cons.mp inTurn).1 x)

theorem fillHead_fillOf (m : Moment) (n : Nat) (t o : Order) (os : List Order) :
    fillHead o (min t.quantity o.quantity) m.now os =
      if (fillOf m n t o).trade.quantity = o.quantity then os
      else { o with
        quantity := o.quantity - (fillOf m n t o).trade.quantity
        status := .partlyFilled
        updatedAt := (fillOf m n t o).trade.createdAt } :: os := by
  have traded : (fillOf m n t o).trade.quantity = min t.quantity o.quantity := rfl
  have now : (fillOf m n t o).trade.createdAt = m.now := rfl
  rw [traded, now, fillHead, Order.afterFill]
  by_cases spent : o.quantity ≤ t.quantity
  · rw [if_pos (by omega), if_pos (by omega)]
  · rw [if_neg (by omega), if_neg (by omega), if_neg (by omega)]

/-- The first of the queue of the other side is a fair maker. -/
theorem Sound.fair (h : b.Sound) (left : t.quantity ≠ 0)
    (head : (b.book.ladder t.side.opposite).orders = o :: os)
    (crosses : t.side.crosses t.price o.price = true) (m : Moment) :
    ∃ b', b.fillOnce t m = .ok (some (b', t.afterTaking (min t.quantity o.quantity) m.now,
        fillOf m b.nextTrade t o)) ∧
      Fair b t o (fillOf m b.nextTrade t o) b' := by
  obtain ⟨b', hok, swept⟩ := h.fillOnce left head crosses m
  have here : o ∈ (b.book.ladder t.side.opposite).orders := head ▸ List.mem_cons_self
  have own : o.side = t.side.opposite := h.book.own here
  have rests : o ∈ b.book.orders := h.book.mem_orders.mpr (own ▸ here)
  have ahead := h.ahead_of_head (own ▸ head)
  refine ⟨b', hok, ?_⟩
  exact
    { rests := ⟨rests, own⟩
      best := by
        intro x hx same
        rcases ahead x hx same with rfl | better | ⟨equal, -⟩
        · exact Side.better_irrefl _ _
        · exact Side.better_asymm better
        · rw [equal]; exact Side.better_irrefl _ _
      first := by
        intro x hx same price ne
        rcases ahead x hx same with rfl | better | ⟨-, earlier⟩
        · exact absurd rfl ne
        · simp [price, Side.better_irrefl] at better
        · exact earlier
      parties := ⟨rfl, rfl⟩
      price := rfl
      limits := fair_limits own crosses
      quantity := by
        have some := h.book.left rests
        have least : (fillOf m b.nextTrade t o).trade.quantity = min t.quantity o.quantity := rfl
        exact ⟨by omega, least⟩
      place := by
        have after : (b'.book.ladder o.side).orders = fillHead o _ m.now os := own ▸ swept.queue
        refine ⟨os, own ▸ head, ?_⟩
        rw [after]
        exact fillHead_fillOf m b.nextTrade t o os }

/-- Every fill of the walk along the queue is one of the loop, in some state between. -/
theorem Sound.filled (h : e.Sound) {before after : List Fill}
    (split : (matchQueue m e.nextTrade t (e.book.ladder t.side.opposite).orders).fills =
      before ++ f :: after) :
    ∃ b t' o b', Filled m e t before b t' ∧
      (∃ t'', b.fillOnce t' m = .ok (some (b', t'', f))) ∧ Fair b t' o f b' ∧
      (∃ quantity updatedAt, t' = { t with quantity, updatedAt }) ∧
      t'.quantity + sumOf (·.trade.quantity) before = t.quantity ∧
      ∀ x ∈ b.book.orders, ∃ y ∈ e.book.orders, (y.id, y.sequence) = (x.id, x.sequence) := by
  -- On the fills made before: each leads to a sound engine where the next is the first.
  induction before generalizing e t with
  | nil =>
    obtain ⟨o, os, head, left, crosses, rfl, -⟩ := matchQueue_filled split
    obtain ⟨b', hok, fair⟩ := h.fair left head crosses m
    exact ⟨e, t, o, b', .nil, ⟨_, hok⟩, fair, ⟨t.quantity, t.updatedAt, rfl⟩, rfl,
      fun x hx => ⟨x, hx, rfl⟩⟩
  | cons g before ih =>
    obtain ⟨o, os, head, left, crosses, rfl, more⟩ := matchQueue_filled split
    obtain ⟨e₁, hok, one⟩ := h.fillOnce left head crosses m
    have next : e₁.nextTrade = e.nextTrade + 1 := one.nextTrade
    obtain ⟨b, t', maker, b', filled, last, fair, ⟨quantity, updatedAt, same⟩, sum, known⟩ :=
      ih one.sound (t := t.afterTaking (min t.quantity o.quantity) m.now) (by
        rw [Order.afterTaking_side, one.queue, next]
        exact more.symm)
    refine ⟨b, t', maker, b', .cons hok filled, last, fair, ⟨quantity, updatedAt, same⟩, ?_, ?_⟩
    · simp only [sumOf_cons, fillOf, Order.afterTaking] at sum ⊢
      omega
    · intro x hx
      obtain ⟨y, hy, sameY⟩ := known x hx
      obtain ⟨z, hz, sameZ⟩ := one.before (fun x => (x.id, x.sequence)) (by
        rw [head]
        unfold fillHead
        split <;> simp) y hy
      exact ⟨z, hz, sameZ.trans sameY⟩

/-- Whatever was called before and whatever is submitted next: each fill, in the state just before
it, is one of the taker against the first of the other side, within both limits and as large as it
can be. Earlier at one price is smaller in sequence, since sequences grow as orders come to rest,
and stay below 2 to the 64th while the calls are modest. -/
theorem every_fill_is_fair (ss : List Step) (o : Order) (m : Moment) :
    ∃ e outs e' result, new.run ss = .ok (e, outs) ∧ e.submit o m = .ok (e', result) ∧
      (outs.flatMap (·.placed)).Pairwise (fun a b => a.sequence < b.sequence) ∧
      (Modest (ss ++ [.instruct (.submit o m)]) → e'.InRange) ∧
      ∀ x, result = .ok x → ∀ before f after, x.fills = before ++ f :: after →
        ∃ b taker maker b',
          Filled m { e with nextSequence := e.nextSequence + 1 } (e.takerOf o) before b taker ∧
          (∃ taker', b.fillOnce taker m = .ok (some (b', taker', f))) ∧
          Fair b taker maker f b' ∧
          taker.id = o.id ∧ taker.side = o.side ∧ taker.price = o.price ∧
          taker.quantity + sumOf (·.trade.quantity) before = o.quantity ∧
          ∀ y ∈ b.book.orders,
            ∃ p ∈ outs.flatMap (·.placed), p.id = y.id ∧ p.sequence = y.sequence := by
  obtain ⟨e, outs, hok, ran⟩ := sound_new.run ss
  have past := ran.advances sound_new
  cases hr : e.rejection? o with
  | some r =>
    exact ⟨e, outs, e, .error r, hok, submit_rejected hr, past.inTurn,
      submit_inRange hok (submit_rejected hr), fun x hx => by cases hx⟩
  | none =>
    obtain ⟨e', submitted, -⟩ := past.sound.submit hr m
    refine ⟨e, outs, e', _, hok, submitted, past.inTurn, submit_inRange hok submitted, ?_⟩
    rintro _ ⟨⟩ before f after split
    obtain ⟨b, t, maker, b', filled, last, fair, ⟨quantity, updatedAt, rfl⟩, sum, known⟩ :=
      (past.sound.advance (Nat.le_succ _)).filled (t := e.takerOf o) split
    refine ⟨b, _, maker, b', filled, last, fair, rfl, rfl, rfl, sum, fun y hy => ?_⟩
    obtain ⟨z, hz, same⟩ := known y hy
    obtain ⟨sameId, sameSequence⟩ := Prod.mk.inj same
    rcases past.known z hz with ⟨w, hw, -⟩ | ⟨p, hp, hid, hs⟩
    · cases hw
    · exact ⟨p, hp, hid.trans sameId, hs.trans sameSequence⟩

end Engine
end Bourse
