import Bourse.Proofs.Engine.Counters
import Bourse.Proofs.Engine.Executions

/-! The footprint of one submission. It takes the front of the queue of the other side, order by
order; at most the last of them stays, as its fill leaves it. All other queues are as they were, but
for what is left of the taker, which goes to the end of its own. -/
namespace Bourse

/-- What an order that rested has become when these are the makers as they now are: nothing, if none
of it is left. -/
def Order.successor (makers : List Order) (o : Order) : Option Order :=
  match makers.find? (·.id == o.id) with
  | none => some o
  | some y => if y.quantity = 0 then none else some y

namespace Order

variable {makers : List Order} {o y : Order}

theorem successor_other (apart : o.id ∉ makers.map (·.id)) : o.successor makers = some o := by
  have none : makers.find? (·.id == o.id) = none := by
    refine List.find?_eq_none.mpr fun y hy same => apart ?_
    exact List.mem_map.mpr ⟨y, hy, beq_iff_eq.mp same⟩
  rw [successor, none]

theorem successor_cons_self (same : y.id = o.id) :
    o.successor (y :: makers) = if y.quantity = 0 then none else some y := by
  rw [successor, List.find?_cons_of_pos (by simpa using same)]

theorem successor_cons_other (other : y.id ≠ o.id) :
    o.successor (y :: makers) = o.successor makers := by
  rw [successor, List.find?_cons_of_neg (by simpa using other)]
  rfl

theorem filterMap_successor_other {os : List Order}
    (apart : ∀ o ∈ os, o.id ∉ makers.map (·.id)) : os.filterMap (successor makers) = os := by
  have same : os.filterMap (successor makers) = os.filterMap some :=
    List.filterMap_congr fun o ho => successor_other (apart o ho)
  rw [same, List.filterMap_some]

end Order

section MatchQueue

variable (m : Moment) (number : Nat) (taker : Order) {os : List Order}

/-- Every order of the queue is followed by its successor, in its place. -/
theorem matchQueue_rest_eq (ids : (os.map (·.id)).Nodup) :
    let r := matchQueue m number taker os
    r.rest = os.filterMap (Order.successor (r.fills.map (·.maker))) := by
  induction os generalizing number taker with
  | nil => rfl
  | cons o os ih =>
    have parts := List.nodup_cons.mp ids
    have others : ∀ x ∈ os, o.id ≠ x.id := fun x hx same =>
      parts.1 (List.mem_map.mpr ⟨x, hx, same.symm⟩)
    simp only [matchQueue]
    split
    · exact (Order.filterMap_successor_other (by simp)).symm
    · rename_i go
      have maker : (fillOf m number taker o).maker.id = o.id := rfl
      split
      · rename_i spent
        have gone : (fillOf m number taker o).maker.quantity = 0 := by
          simp only [fillOf, Order.afterFill_quantity]
          omega
        rw [List.map_cons, List.filterMap_cons, Order.successor_cons_self maker, if_pos gone]
        rw [ih _ _ parts.2]
        exact List.filterMap_congr fun x hx =>
          (Order.successor_cons_other (maker ▸ others x hx)).symm
      · rename_i more
        have left : (fillOf m number taker o).maker.quantity ≠ 0 := by
          simp only [fillOf, Order.afterFill_quantity]
          omega
        have apart : ∀ x ∈ os, x.id ∉ [(fillOf m number taker o).maker].map (·.id) :=
          fun x hx same => others x hx (by simpa [maker, eq_comm] using same)
        rw [List.map_singleton, List.filterMap_cons, Order.successor_cons_self maker, if_neg left,
          Order.filterMap_successor_other apart]

/-- The fills are of one order after the other from the front of the queue. -/
theorem matchQueue_fill_at (left : ∀ o ∈ os, 0 < o.quantity) {i : Nat} {f : Fill}
    (h : (matchQueue m number taker os).fills[i]? = some f) :
    ∃ z, os[i]? = some z ∧ f.trade.taker = taker.id ∧ f.trade.maker = z.id ∧
      f.trade.price = z.price ∧ 0 < f.trade.quantity ∧ f.trade.quantity ≤ z.quantity ∧
      f.maker = z.afterFill f.trade.quantity m.now := by
  induction os generalizing number taker i with
  | nil => cases h
  | cons o os ih =>
    have rests := left o List.mem_cons_self
    simp only [matchQueue] at h
    split at h
    · cases h
    rename_i go
    have first : 0 < (fillOf m number taker o).trade.quantity ∧
        (fillOf m number taker o).trade.quantity ≤ o.quantity := by
      have traded : (fillOf m number taker o).trade.quantity = min taker.quantity o.quantity := rfl
      have asks : taker.quantity ≠ 0 := fun hz => go (.inl hz)
      omega
    split at h
    · cases i with
      | zero =>
        cases h
        exact ⟨o, rfl, rfl, rfl, rfl, first.1, first.2, rfl⟩
      | succ i =>
        exact ih (number + 1) (taker.afterTaking (min taker.quantity o.quantity) m.now)
          (fun x hx => left x (List.mem_cons_of_mem _ hx)) h
    · cases i with
      | zero =>
        cases h
        exact ⟨o, rfl, rfl, rfl, rfl, first.1, first.2, rfl⟩
      | succ i => cases h

/-- Only the last maker can be left with something, and then nothing is left of the taker. -/
theorem matchQueue_last (os : List Order) :
    let r := matchQueue m number taker os
    ∃ spent more, r.fills = spent ++ more ∧ (∀ f ∈ spent, f.maker.quantity = 0) ∧
      ∀ f ∈ more, more = [f] ∧ f.maker.quantity ≠ 0 ∧ r.taker.quantity = 0 ∧
        r.rest.head? = some f.maker := by
  induction os generalizing number taker with
  | nil => exact ⟨[], [], rfl, List.forall_mem_nil _, List.forall_mem_nil _⟩
  | cons o os ih =>
    simp only [matchQueue]
    split
    · exact ⟨[], [], rfl, List.forall_mem_nil _, List.forall_mem_nil _⟩
    split
    · rename_i spent
      obtain ⟨gone, more, fills, ended, last⟩ :=
        ih (number + 1) (taker.afterTaking (min taker.quantity o.quantity) m.now)
      refine ⟨fillOf m number taker o :: gone, more, ?_, fun f hf => ?_, last⟩
      · rw [fills]
        rfl
      · rcases List.mem_cons.mp hf with rfl | hf
        · simp only [fillOf, Order.afterFill_quantity]
          omega
        · exact ended f hf
    · rename_i part
      refine ⟨[], [fillOf m number taker o], rfl, List.forall_mem_nil _, fun f hf => ?_⟩
      rw [List.mem_singleton.mp hf]
      refine ⟨rfl, ?_, ?_, rfl⟩
      · simp only [fillOf, Order.afterFill_quantity]
        omega
      · simp only [Order.afterTaking]
        omega

end MatchQueue

theorem Order.successor_price {makers : List Order} {o y : Order}
    (kept : ∀ z ∈ makers, z.id = o.id → z.price = o.price) (h : o.successor makers = some y) :
    y.price = o.price := by
  unfold successor at h
  split at h
  · cases h
    rfl
  · rename_i found
    split at h
    · cases h
    · cases h
      exact kept y (List.mem_of_find?_eq_some found) (by simpa using List.find?_some found)

theorem filter_filterMap_successor {makers os : List Order}
    (kept : ∀ o ∈ os, ∀ z ∈ makers, z.id = o.id → z.price = o.price) (price : Price) :
    (os.filterMap (Order.successor makers)).filter (·.price == price) =
      (os.filter (·.price == price)).filterMap (Order.successor makers) := by
  induction os with
  | nil => rfl
  | cons o os ih =>
    have rest := ih fun x hx => kept x (List.mem_cons_of_mem _ hx)
    cases next : o.successor makers with
    | none =>
      rw [List.filterMap_cons_none next, rest, List.filter_cons]
      split
      · rw [List.filterMap_cons_none next]
      · rfl
    | some y =>
      have same := Order.successor_price (kept o List.mem_cons_self) next
      rw [List.filterMap_cons_some next, List.filter_cons, List.filter_cons, same, rest]
      split
      · rw [List.filterMap_cons_some next]
      · rfl

theorem Execution.trades_eq_nil {x : Execution} (some : ∀ f ∈ x.fills, 0 < f.trade.quantity) :
    x.trades = [] ↔ x.filled = 0 := by
  constructor
  · intro none
    rw [filled, none, sumOf_nil]
  · intro zero
    by_contra any
    obtain ⟨f, fs, fills⟩ := List.exists_cons_of_ne_nil (mt List.map_eq_nil_iff.mpr any)
    have first := some f (fills ▸ List.mem_cons_self)
    rw [x.filled_eq, fills, sumOf_cons] at zero
    omega

namespace Engine

/-- All that an accepted submission changes. -/
structure Footprint (e : Engine) (o : Order) (m : Moment) (x : Execution) (e' : Engine) : Prop where
  paired : x.trades.length = x.makers.length
  /-- The makers are the first of the other side, each as its trade has left it. -/
  makers : ∀ (i : Nat) (t : Trade) (y : Order), x.trades[i]? = some t → x.makers[i]? = some y →
    ∃ z : Order, (e.book.ladder o.side.opposite).orders[i]? = some z ∧
      t.taker = o.id ∧ t.maker = z.id ∧ t.price = z.price ∧
      0 < t.quantity ∧ t.quantity ≤ z.quantity ∧
      y = { z with
        quantity := z.quantity - t.quantity
        updatedAt := m.now
        status := if z.quantity - t.quantity = 0 then .filled else .partlyFilled }
  distinct : (x.makers.map (·.id)).Nodup
  within : x.trades.length ≤ (e.book.ladder o.side.opposite).orders.length
  /-- All makers are filled and gone but perhaps the last, which stays only if the taker is filled,
  at the head of its level. -/
  ended : ∃ spent more, x.makers = spent ++ more ∧
    (∀ y ∈ spent, y.quantity = 0 ∧ y.status = .filled ∧ e'.book.find? y.id = none) ∧
    ∀ y ∈ more, more = [y] ∧ 0 < y.quantity ∧ y.status = .partlyFilled ∧
      x.order.status = .filled ∧ (e'.book.ordersAt o.side.opposite y.price).head? = some y
  numbers : x.trades.map (·.sequence) = List.range' e.nextTrade x.trades.length ∧
    e'.nextTrade = e.nextTrade + x.trades.length
  /-- Every queue has the same orders in the same places, makers as they now are, and the taker's
  own has what is left of it behind them. -/
  queues : ∀ side price, e'.book.ordersAt side price =
    (e.book.ordersAt side price).filterMap (Order.successor x.makers) ++
      if side = o.side ∧ price = o.price ∧ x.order.quantity ≠ 0 then [x.order] else []
  filled : x.filled ≤ o.quantity
  taker : ∃ updatedAt, x.order =
    { o with
      sequence := e.nextSequence
      size := o.quantity
      quantity := o.quantity - x.filled
      updatedAt
      status := if x.filled = o.quantity then .filled
        else if x.trades = [] then .opened else .partlyFilled }
  nextSequence : e'.nextSequence = e.nextSequence + 1

section Accepted

variable {e e' : Engine} {o : Order} {m : Moment}

/-- What is left of the taker queues behind all others of its price. -/
theorem Accepted.own_queue (a : Accepted e o (e.matchOf o m) e') (h : e.Sound) (price : Price) :
    e'.book.ordersAt o.side price = e.book.ordersAt o.side price ++
      if price = o.price then (e.matchOf o m).taker.settled.resting else [] := by
  obtain ⟨_, _, _, -, settled⟩ := e.matchOf_settled o m
  have mine : ∀ x ∈ (e.matchOf o m).taker.settled.resting,
      x.price = o.price ∧ x.sequence = e.nextSequence := by
    intro x hx
    rw [(mem_resting_settled.mp hx).1, settled]
    exact ⟨rfl, rfl⟩
  have level : (e.matchOf o m).taker.settled.resting.filter (·.price == price) =
      if price = o.price then (e.matchOf o m).taker.settled.resting else [] := by
    split
    · rename_i same
      exact List.filter_eq_self.mpr fun x hx => by simp [mine x hx, same]
    · rename_i other
      exact List.filter_eq_nil_iff.mpr fun x hx => by simp [mine x hx, Ne.symm other]
  rw [a.sound.book.ordersAt, h.book.ordersAt, ← level]
  refine queue_behind a.own (a.sound.book.ladders o.side).pairwise
    (h.book.ladders o.side).pairwise ?_ (fun x hx y hy _ => ?_) price
  · unfold Order.resting
    split
    · exact .nil
    · exact List.pairwise_singleton _ _
  · rw [(mine y hy).2]
    exact h.early hx

/-- No maker is of the taker's own side. -/
theorem Sound.own_apart (h : e.Sound) (o : Order) (m : Moment) :
    ∀ x ∈ (e.book.ladder o.side).orders,
      x.id ∉ ((e.matchOf o m).fills.map (·.maker)).map (·.id) := by
  have front := matchQueue_makers m e.nextTrade (e.takerOf o) (e.book.ladder o.side.opposite).orders
  intro x hx made
  rw [List.map_map] at made
  obtain ⟨-, -, apart⟩ := List.nodup_append.mp (h.book.ids_apart o.side)
  exact apart _ (List.mem_map_of_mem hx) _ (front.subset made) rfl

theorem Accepted.other_queue (a : Accepted e o (e.matchOf o m) e') (h : e.Sound) (price : Price) :
    e'.book.ordersAt o.side.opposite price = (e.book.ordersAt o.side.opposite price).filterMap
      (Order.successor ((e.matchOf o m).fills.map (·.maker))) := by
  have queueIds := h.book.side_ids o.side.opposite
  rw [a.sound.book.ordersAt, h.book.ordersAt, a.queue]
  refine (congrArg _ (matchQueue_rest_eq m e.nextTrade (e.takerOf o) queueIds)).trans
    (filter_filterMap_successor (fun x hx y hy same => ?_) price)
  obtain ⟨f, hf, rfl⟩ := List.mem_map.mp hy
  obtain ⟨z, hz, -, -, -, -, after⟩ := of_mem_matchQueue_fills m e.nextTrade (e.takerOf o) _ hf
  rw [after] at same ⊢
  rw [List.inj_on_of_nodup_map queueIds hx hz same.symm]
  rfl

theorem Sound.fill_at (h : e.Sound) {i : Nat} {f : Fill}
    (hf : (e.matchOf o m).fills[i]? = some f) :
    ∃ z, (e.book.ladder o.side.opposite).orders[i]? = some z ∧ f.trade.taker = o.id ∧
      f.trade.maker = z.id ∧ f.trade.price = z.price ∧
      0 < f.trade.quantity ∧ f.trade.quantity ≤ z.quantity ∧
      f.maker = z.afterFill f.trade.quantity m.now :=
  matchQueue_fill_at m e.nextTrade (e.takerOf o)
    (fun y hy => ((h.book.ladders _).own y hy).2) hf

/-- The order as its submission ends: what its trades tell is gone, and its status says so. -/
theorem Sound.order_after (h : e.Sound) (o : Order) (m : Moment) :
    let x : Execution := ⟨(e.matchOf o m).taker.settled, (e.matchOf o m).fills⟩
    x.filled ≤ o.quantity ∧ ∃ updatedAt, x.order =
      { o with
        sequence := e.nextSequence
        size := o.quantity
        quantity := o.quantity - x.filled
        updatedAt
        status := if x.filled = o.quantity then .filled
          else if x.trades = [] then .opened else .partlyFilled } := by
  intro x
  obtain ⟨quantity, updatedAt, -, taker⟩ := e.matchOf_taker o m
  have filled : x.filled = sumOf (·.trade.quantity) (e.matchOf o m).fills := x.filled_eq
  have sum : x.filled + quantity = o.quantity := by
    have whole : sumOf (·.trade.quantity) (e.matchOf o m).fills + (e.matchOf o m).taker.quantity =
        o.quantity := matchQueue_taker_quantity m e.nextTrade (e.takerOf o) _
    rw [taker, ← filled] at whole
    exact whole
  have traded : x.trades = [] ↔ x.filled = 0 := Execution.trades_eq_nil fun f hf => by
    obtain ⟨i, place⟩ := List.getElem?_of_mem hf
    obtain ⟨_, -, -, -, -, positive, -⟩ := h.fill_at place
    exact positive
  refine ⟨by omega, updatedAt, ?_⟩
  have order : x.order = (e.matchOf o m).taker.settled := rfl
  have rest : o.quantity - x.filled = quantity := by omega
  have status : (if quantity = 0 then Status.filled
        else if quantity < o.quantity then .partlyFilled else .opened) =
      if x.filled = o.quantity then .filled
        else if x.trades = [] then .opened else .partlyFilled := by
    by_cases spent : quantity = 0
    · rw [if_pos spent, if_pos (show x.filled = o.quantity by omega)]
    · rw [if_neg spent, if_neg (show ¬x.filled = o.quantity by omega)]
      by_cases none : x.trades = []
      · have whole := traded.mp none
        rw [if_neg (show ¬quantity < o.quantity by omega), if_pos none]
      · have part := mt traded.mpr none
        rw [if_pos (show quantity < o.quantity by omega), if_neg none]
  rw [rest, ← status, order, Order.settled, taker]
  rfl

theorem Accepted.gone (a : Accepted e o (e.matchOf o m) e') (h : e.Sound)
    (fresh : ∀ x ∈ e.book.orders, x.id ≠ o.id) {y : Order}
    (made : y ∈ (e.matchOf o m).fills.map (·.maker)) (ended : y.status.isTerminal = true) :
    e'.book.find? y.id = none := by
  have ex := h.executed (m := m) fresh rfl
  rw [a.sound.book.find?, List.find?_eq_none]
  intro z hz same
  have id : z.id = y.id := by simpa using same
  rcases (a.mem_orders h z).mp hz with ⟨rfl, -⟩ | ⟨other, live⟩ | ⟨-, apart⟩
  · exact ex.apart (List.mem_map.mpr ⟨y, made, id.symm⟩)
  · rw [List.inj_on_of_nodup_map ex.distinct other made id, ended] at live
    cases live
  · exact apart (List.mem_map.mpr ⟨y, made, id.symm⟩)

theorem Accepted.ended (a : Accepted e o (e.matchOf o m) e') (h : e.Sound)
    (fresh : ∀ x ∈ e.book.orders, x.id ≠ o.id) :
    ∃ spent more, (e.matchOf o m).fills.map (·.maker) = spent ++ more ∧
      (∀ y ∈ spent, y.quantity = 0 ∧ y.status = .filled ∧ e'.book.find? y.id = none) ∧
      ∀ y ∈ more, more = [y] ∧ 0 < y.quantity ∧ y.status = .partlyFilled ∧
        (e.matchOf o m).taker.settled.status = .filled ∧
        (e'.book.ordersAt o.side.opposite y.price).head? = some y := by
  obtain ⟨spent, more, fills, gone, last⟩ :=
    matchQueue_last m e.nextTrade (e.takerOf o) (e.book.ladder o.side.opposite).orders
  change (e.matchOf o m).fills = _ at fills
  refine ⟨spent.map (·.maker), more.map (·.maker), by rw [fills, List.map_append], ?_, ?_⟩
  · intro y hy
    obtain ⟨f, hf, rfl⟩ := List.mem_map.mp hy
    have among : f ∈ (e.matchOf o m).fills := fills ▸ List.mem_append_left _ hf
    obtain ⟨z, -, takes⟩ := h.of_mem_fills among
    have nothing := gone f hf
    have status : f.maker.status = .filled := by
      rw [takes.after] at nothing ⊢
      exact (z.afterFill_filled _ _).mpr nothing
    refine ⟨nothing, status, a.gone h fresh (List.mem_map_of_mem among) ?_⟩
    rw [status]
    rfl
  · intro y hy
    obtain ⟨f, hf, rfl⟩ := List.mem_map.mp hy
    have among : f ∈ (e.matchOf o m).fills := fills ▸ List.mem_append_right _ hf
    obtain ⟨z, -, takes⟩ := h.of_mem_fills among
    obtain ⟨single, left, taker, head⟩ := last f hf
    refine ⟨by rw [single, List.map_singleton], Nat.pos_of_ne_zero left, ?_,
      (Order.settled_filled _).mpr taker, ?_⟩
    · rw [takes.after] at left ⊢
      exact if_neg left
    · change (e.matchOf o m).rest.head? = _ at head
      obtain ⟨others, queue⟩ := List.head?_eq_some_iff.mp head
      rw [a.sound.book.ordersAt, a.queue, queue, List.filter_cons_of_pos (by simp)]
      rfl

/-- Makers change in their queues, and what is left of the taker is put behind its own. -/
theorem Accepted.queues (a : Accepted e o (e.matchOf o m) e') (h : e.Sound) (side : Side)
    (price : Price) : e'.book.ordersAt side price =
      (e.book.ordersAt side price).filterMap
          (Order.successor ((e.matchOf o m).fills.map (·.maker))) ++
        if side = o.side ∧ price = o.price ∧ (e.matchOf o m).taker.settled.quantity ≠ 0 then
          [(e.matchOf o m).taker.settled]
        else [] := by
  rcases Side.eq_or_eq_opposite side o.side with rfl | rfl
  · have apart : (e.book.ordersAt o.side price).filterMap
        (Order.successor ((e.matchOf o m).fills.map (·.maker))) =
        e.book.ordersAt o.side price := by
      rw [h.book.ordersAt]
      exact Order.filterMap_successor_other fun x hx =>
        h.own_apart o m x (List.mem_of_mem_filter hx)
    have rests : (e.matchOf o m).taker.settled.resting =
        if (e.matchOf o m).taker.settled.quantity ≠ 0 then [(e.matchOf o m).taker.settled]
        else [] := by
      unfold Order.resting
      split <;> simp_all
    rw [a.own_queue h price, apart, rests]
    by_cases same : price = o.price <;> simp [same]
  · rw [a.other_queue h price, if_neg fun own => Side.opposite_ne _ own.1, List.append_nil]

theorem Accepted.footprint (a : Accepted e o (e.matchOf o m) e') (h : e.Sound)
    (accepted : e.rejection? o = none) :
    Footprint e o m ⟨(e.matchOf o m).taker.settled, (e.matchOf o m).fills⟩ e' := by
  obtain ⟨-, fresh, -⟩ := h.rejection?_none.mp accepted
  have front := matchQueue_makers m e.nextTrade (e.takerOf o) (e.book.ladder o.side.opposite).orders
  obtain ⟨filled, taker⟩ := h.order_after o m
  exact
    { paired := by simp [Execution.trades, Execution.makers]
      makers := by
        intro i t y ht hy
        rw [Execution.trades, List.getElem?_map] at ht
        rw [Execution.makers, List.getElem?_map] at hy
        obtain ⟨f, hf, rfl⟩ := Option.map_eq_some_iff.mp ht
        rw [hf] at hy
        cases hy
        exact h.fill_at hf
      distinct := (h.executed (m := m) fresh rfl).distinct
      within := by
        have within := front.length_le
        rw [List.length_map, List.length_map] at within
        rw [Execution.trades, List.length_map]
        exact within
      ended := a.ended h fresh
      numbers := by
        have sequences := matchQueue_sequences m e.nextTrade (e.takerOf o)
          (e.book.ladder o.side.opposite).orders
        refine ⟨?_, by simpa [Execution.trades] using a.nextTrade⟩
        rw [Execution.trades, List.map_map, List.length_map]
        exact sequences
      queues := a.queues h
      filled := filled
      taker := taker
      nextSequence := a.nextSequence }

end Accepted

/-- After any calls an accepted submission changes this and nothing else. The counters stay below 2
to the 64th while the calls are modest. -/
theorem submission_footprint (ss : List Step) (o : Order) (m : Moment) :
    ∃ e outs e' r, new.run ss = .ok (e, outs) ∧ e.submit o m = .ok (e', r) ∧
      (∀ x, r = .ok x → Footprint e o m x e') ∧
      (Modest (ss ++ [.instruct (.submit o m)]) → e'.InRange) := by
  obtain ⟨e, outs, hok, ran⟩ := sound_new.run ss
  have sound := (ran.advances sound_new).sound
  cases hr : e.rejection? o with
  | some reason =>
    exact ⟨e, outs, e, .error reason, hok, submit_rejected hr, nofun,
      submit_inRange hok (submit_rejected hr)⟩
  | none =>
    obtain ⟨e', submitted, a⟩ := sound.submit hr m
    refine ⟨e, outs, e', _, hok, submitted, ?_, submit_inRange hok submitted⟩
    rintro _ ⟨⟩
    exact a.footprint sound hr

/-- A bid takes all of two offers of different prices and part of a third, which keeps its place. -/
theorem submission_footprint_of_sweep :
    let two : Price := ⟨⟨false, 2, 0, by decide, Nat.zero_le _⟩, rfl, .inl rfl⟩
    let ask (name : String) (price : Price) (quantity : Nat) : Order :=
      .new ⟨name⟩ .sell price quantity .epoch
    let bid : Order := .new ⟨"bid"⟩ .buy two 9 .epoch
    let m : Moment := ⟨.epoch, .ofNat⟩
    let ss : List Step := [.instruct (.submit (ask "x" .one 3) m),
      .instruct (.submit (ask "y" two 4) m), .instruct (.submit (ask "z" two 5) m),
      .instruct (.submit (ask "last" two 6) m)]
    ∃ e outs e' x, new.run ss = .ok (e, outs) ∧ e.submit bid m = .ok (e', .ok x) ∧
      Footprint e bid m x e' ∧ e'.InRange ∧ x.trades.map (·.quantity) = [3, 4, 2] ∧
      x.order.status = .filled ∧
      (e'.book.ordersAt .sell two).map (fun o => (o.id.text, o.quantity)) =
        [("z", 3), ("last", 6)] := by
  intro two ask bid m ss
  obtain ⟨e, outs, e', r, hok, submitted, foot, range⟩ := submission_footprint ss bid m
  cases hok
  cases submitted
  exact ⟨_, _, _, _, rfl, rfl, foot _ rfl, range (by decide), rfl, rfl, rfl⟩

end Engine
end Bourse
