import Bourse.Proofs.Desk.Postings
import Bourse.Proofs.Feed.Readers

/-! What the feed is told of one command. It is told the orders as they are posted to the ledger and
the trades that are, and whoever keeps a map of what rests by it keeps it right. -/
namespace Bourse

namespace Event

/-- The order as it is after the event. -/
def order? : Event → Option Order
  | added o _ | matched o _ _ | cancelled o _ => some o
  | traded .. => none

def matchedOf (id : OrderId) : Event → Nat
  | matched o quantity _ => if o.id = id then quantity else 0
  | _ => 0

/-- How a map of the resting orders by their ids follows an event. -/
def replay (held : OrderId → Option Order) : Event → OrderId → Option Order
  | added o _ => Function.update held o.id (some o)
  | matched o _ _ =>
    if held o.id = none then held
    else Function.update held o.id (if o.quantity = 0 then none else some o)
  | cancelled o _ => Function.update held o.id none
  | traded .. => held

end Event

/-- The events of a command that was replied to in this way. -/
def announced (now : Instant) : Except Rejection Reply → List Event
  | .ok (.execution x) => x.events now
  | .ok (.cancelled (some o)) => [.cancelled o now]
  | _ => []

/-- The events of some commands, the last of which was replied to last. -/
def stream (clock : Nat → Moment) : List (Except Rejection Reply) → List Event
  | [] => []
  | r :: rs => announced (clock 0).now r ++ stream (fun n => clock (n + 1)) rs

/-- The feed is told of the command, and nothing else changes but the engine and the store. -/
theorem Desk.handle_feed {d d' : Desk} {c : Command} {m : Moment} {r : Except Rejection Reply}
    (h : d.handle c m = .ok (d', r)) :
    d'.feed = (d.feed.publishAll (announced m.now r)).1 ∧ d'.serving = d.serving := by
  cases c with
  | submit o =>
    simp only [handle, submit] at h
    cases hs : d.engine.submit o m with
    | error => rw [hs] at h; cases h
    | ok p => obtain ⟨e', _ | x⟩ := p <;> rw [hs] at h <;> cases h <;> exact ⟨rfl, rfl⟩
  | cancel id =>
    simp only [handle, cancel] at h
    cases hs : d.engine.cancel id m.now with
    | error => rw [hs] at h; cases h
    | ok p => obtain ⟨e', _ | o⟩ := p <;> rw [hs] at h <;> cases h <;> exact ⟨rfl, rfl⟩
  | best side =>
    simp only [handle, best] at h
    cases hs : d.engine.book.best side with
    | error => rw [hs] at h; cases h
    | ok o => rw [hs] at h; cases h; exact ⟨rfl, rfl⟩
  | find id => cases h; exact ⟨rfl, rfl⟩
  | depth limit => cases h; exact ⟨rfl, rfl⟩

def Fill.events (f : Fill) (now : Instant) : List Event :=
  [.traded f.trade now, .matched f.maker f.trade.quantity now]

/-- What is told of the taker once its fills have been told. -/
def Execution.takerEvents (x : Execution) (now : Instant) : List Event :=
  (if x.order.filled > 0 then [.matched x.order x.order.filled now] else []) ++
    (if x.order.quantity > 0 then [.added x.order now] else [])

theorem Execution.events_eq (x : Execution) (now : Instant) :
    x.events now = x.fills.flatMap (·.events now) ++ x.takerEvents now := by
  rw [events, takerEvents, List.append_assoc]
  rfl

section Fills

variable (fs : List Fill) (now : Instant)

theorem order?_fills :
    (fs.flatMap (·.events now)).filterMap Event.order? = fs.map (·.maker) := by
  induction fs with
  | nil => rfl
  | cons f fs ih =>
    rw [List.flatMap_cons, List.filterMap_append, ih]
    rfl

theorem trade?_fills :
    (fs.flatMap (·.events now)).filterMap Event.trade? = fs.map (·.trade) := by
  induction fs with
  | nil => rfl
  | cons f fs ih =>
    rw [List.flatMap_cons, List.filterMap_append, ih]
    rfl

theorem matchedOf_fills (id : OrderId) :
    sumOf (Event.matchedOf id) (fs.flatMap (·.events now)) =
      sumOf (fun f => if f.maker.id = id then f.trade.quantity else 0) fs := by
  induction fs with
  | nil => rfl
  | cons f fs ih =>
    rw [List.flatMap_cons, sumOf_append, ih]
    simp [Fill.events, Event.matchedOf]

variable {fs}

/-- Each maker takes the place of the order it was, or leaves it empty. -/
theorem replay_fills {held : OrderId → Option Order}
    (distinct : ((fs.map (·.maker)).map (·.id)).Nodup)
    (known : ∀ f ∈ fs, held f.maker.id ≠ none) (id : OrderId) (y : Order) :
    (fs.flatMap (·.events now)).foldl Event.replay held id = some y ↔
      (y ∈ fs.map (·.maker) ∧ y.quantity ≠ 0 ∧ y.id = id) ∨
        (held id = some y ∧ id ∉ (fs.map (·.maker)).map (·.id)) := by
  induction fs generalizing held with
  | nil => simp
  | cons f fs ih =>
    obtain ⟨apart, distinct'⟩ := List.nodup_cons.mp distinct
    have first : (f.events now).foldl Event.replay held =
        Function.update held f.maker.id (if f.maker.quantity = 0 then none else some f.maker) :=
      if_neg (known f List.mem_cons_self)
    have others : ∀ g ∈ fs, g.maker.id ≠ f.maker.id := fun g hg same =>
      apart (List.mem_map.mpr ⟨g.maker, List.mem_map_of_mem hg, same⟩)
    have known' : ∀ g ∈ fs, Function.update held f.maker.id
        (if f.maker.quantity = 0 then none else some f.maker) g.maker.id ≠ none := fun g hg => by
      rw [Function.update_of_ne (others g hg)]
      exact known g (List.mem_cons_of_mem _ hg)
    rw [List.flatMap_cons, List.foldl_append, first, ih distinct' known', List.map_cons,
      List.map_cons, List.mem_cons, List.mem_cons, not_or]
    by_cases same : id = f.maker.id
    · subst same
      rw [Function.update_self]
      constructor
      · rintro (⟨made, left, id⟩ | ⟨now, -⟩)
        · exact .inl ⟨.inr made, left, id⟩
        · split at now
          · cases now
          · rename_i left
            cases now
            exact .inl ⟨.inl rfl, left, rfl⟩
      · rintro (⟨rfl | made, left, id⟩ | ⟨-, other, -⟩)
        · exact .inr ⟨if_neg left, apart⟩
        · exact absurd (List.mem_map.mpr ⟨y, made, id⟩) apart
        · exact absurd rfl other
    · rw [Function.update_of_ne same]
      constructor
      · rintro (⟨made, left, id⟩ | ⟨held, absent⟩)
        · exact .inl ⟨.inr made, left, id⟩
        · exact .inr ⟨held, same, absent⟩
      · rintro (⟨rfl | made, left, id⟩ | ⟨held, -, absent⟩)
        · exact absurd id.symm same
        · exact .inl ⟨made, left, id⟩
        · exact .inr ⟨held, absent⟩

end Fills

section TakerEvents

variable (x : Execution) (now : Instant)

theorem mem_order?_takerEvents (measured : 0 < x.order.filled ∨ 0 < x.order.quantity) (y : Order) :
    y ∈ (x.takerEvents now).filterMap Event.order? ↔ y = x.order := by
  rw [Execution.takerEvents, List.filterMap_append, List.mem_append]
  by_cases filled : x.order.filled > 0 <;> by_cases left : x.order.quantity > 0 <;>
    simp_all [Event.order?, eq_comm]

theorem trade?_takerEvents : (x.takerEvents now).filterMap Event.trade? = [] := by
  rw [Execution.takerEvents]
  split <;> split <;> rfl

theorem matchedOf_takerEvents (id : OrderId) :
    sumOf (Event.matchedOf id) (x.takerEvents now) =
      if x.order.id = id then x.order.filled else 0 := by
  have added : sumOf (Event.matchedOf id)
      (if x.order.quantity > 0 then [.added x.order now] else []) = 0 := by
    split <;> rfl
  rw [Execution.takerEvents, sumOf_append, added]
  by_cases filled : x.order.filled > 0
  · rw [if_pos filled]
    rfl
  · have none : x.order.filled = 0 := by omega
    rw [if_neg filled, none]
    split <;> rfl

/-- The taker's fill tells nothing new, since it is not on the map before it rests. -/
theorem replay_takerEvents {held : OrderId → Option Order} (fresh : held x.order.id = none)
    (id : OrderId) (y : Order) :
    (x.takerEvents now).foldl Event.replay held id = some y ↔
      (y = x.order ∧ y.quantity ≠ 0 ∧ y.id = id) ∨ held id = some y := by
  have fill : (if x.order.filled > 0 then [Event.matched x.order x.order.filled now] else []).foldl
      Event.replay held = held := by
    split
    · exact if_pos fresh
    · rfl
  rw [Execution.takerEvents, List.foldl_append, fill]
  by_cases left : x.order.quantity > 0
  · rw [if_pos left]
    change Function.update held x.order.id (some x.order) id = some y ↔ _
    by_cases mine : id = x.order.id
    · subst mine
      rw [Function.update_self, fresh]
      constructor
      · rintro ⟨⟩
        exact .inl ⟨rfl, Nat.ne_of_gt left, rfl⟩
      · rintro (⟨rfl, -, -⟩ | there)
        · rfl
        · cases there
    · rw [Function.update_of_ne mine]
      refine (or_iff_right ?_).symm
      rintro ⟨rfl, -, same⟩
      exact mine same.symm
  · rw [if_neg left]
    refine (or_iff_right ?_).symm
    rintro ⟨rfl, some, -⟩
    exact left (Nat.pos_of_ne_zero some)

end TakerEvents

/-- The map has these orders and no others, each under its id. -/
def Holds (held : OrderId → Option Order) (there : Order → Prop) : Prop :=
  ∀ id y, held id = some y ↔ there y ∧ y.id = id

/-- The events tell of these orders as they now are, and of these trades; and a map that has
followed the ones before and has what rests follows them. -/
structure Announces (e : Engine) (es : List Event) (os : List Order) (ts : List Trade) : Prop where
  states : ∀ y, y ∈ es.filterMap Event.order? ↔ y ∈ os
  distinct : (os.map (·.id)).Nodup
  trades : es.filterMap Event.trade? = ts
  matched : ∀ id, sumOf (Event.matchedOf id) es = sumOf Trade.quantity (ts.filter (·.involves id))
  replayed : ∀ held, Holds held (· ∈ e.book.orders) → ∀ id y,
    es.foldl Event.replay held id = some y ↔
      (y ∈ os ∧ y.status.isTerminal = false ∧ y.id = id) ∨
        (held id = some y ∧ id ∉ os.map (·.id))

theorem announces_nothing (e : Engine) : Announces e [] [] [] where
  states := by simp
  distinct := .nil
  trades := rfl
  matched := fun _ => rfl
  replayed := by simp

variable {s s' : Store} {e e' : Engine} {m : Moment} {c : Command} {r : Except Rejection Reply}
  {o gone : Order} {x : Execution}

theorem matched_execution (ex : e.Executed o x m.now) (id : OrderId) :
    sumOf (Event.matchedOf id) (x.events m.now) =
      sumOf Trade.quantity (x.trades.filter (·.involves id)) := by
  rw [x.events_eq, sumOf_append, matchedOf_fills, matchedOf_takerEvents]
  by_cases mine : x.order.id = id
  · subst mine
    have others : ∀ f ∈ x.fills,
        (if f.maker.id = x.order.id then f.trade.quantity else 0) = 0 :=
      fun f hf => if_neg fun same =>
        ex.apart (List.mem_map.mpr ⟨f.maker, List.mem_map_of_mem hf, same⟩)
    have lost := ex.taker.quantity
    rw [← ex.taker.id] at lost
    have size : x.order.size = o.whole.quantity := ex.taker.size
    rw [sumOf_congr others, sumOf_zero, if_pos rfl, Order.filled, size, ← lost]
    omega
  · have party : ∀ f ∈ x.fills, (if f.maker.id = id then f.trade.quantity else 0) =
        if f.trade.involves id then f.trade.quantity else 0 := by
      intro f hf
      obtain ⟨z, -, takes, traded⟩ := ex.maker f hf
      have taker : (o.id == id) = false := by
        have same : x.order.id = o.id := ex.taker.id
        exact beq_eq_false_iff_ne.mpr (same ▸ mine)
      rw [Trade.involves, takes.taker, takes.maker, ← traded.id, taker, Bool.false_or]
      simp only [beq_iff_eq]
    rw [if_neg mine, Nat.add_zero, sumOf_congr party, sumOf_filter, Execution.trades, sumOf_map]

theorem replayed_execution (ex : e.Executed o x m.now) (fresh : ∀ z ∈ e.book.orders, z.id ≠ o.id)
    {held : OrderId → Option Order} (holds : Holds held (· ∈ e.book.orders)) (id : OrderId)
    (y : Order) : (x.events m.now).foldl Event.replay held id = some y ↔
      (y ∈ x.order :: x.makers ∧ y.status.isTerminal = false ∧ y.id = id) ∨
        (held id = some y ∧ id ∉ (x.order :: x.makers).map (·.id)) := by
  have known : ∀ f ∈ x.fills, held f.maker.id ≠ none := by
    intro f hf
    obtain ⟨z, hz, -, traded⟩ := ex.maker f hf
    rw [traded.id, (holds z.id z).mpr ⟨hz, rfl⟩]
    exact Option.some_ne_none z
  have off : ∀ y, held x.order.id ≠ some y := by
    intro y there
    obtain ⟨hy, same⟩ := (holds _ _).mp there
    exact fresh y hy (same.trans ex.taker.id)
  have fills := replay_fills m.now ex.distinct known
  -- The makers' events do not bring the taker onto the map.
  have fresh₁ : (x.fills.flatMap (·.events m.now)).foldl Event.replay held x.order.id = none := by
    refine Option.eq_none_iff_forall_ne_some.mpr fun y there => ?_
    rcases (fills _ _).mp there with ⟨made, -, same⟩ | ⟨there, -⟩
    · exact ex.apart (List.mem_map.mpr ⟨y, made, same⟩)
    · exact off y there
  have live := ex.live y
  rw [List.mem_cons] at live
  rw [x.events_eq, List.foldl_append, replay_takerEvents x m.now fresh₁, fills, List.map_cons,
    List.mem_cons, List.mem_cons, not_or]
  constructor
  · rintro (⟨rfl, left, same⟩ | ⟨made, left, same⟩ | ⟨there, absent⟩)
    · exact .inl ⟨.inl rfl, (live (.inl rfl)).mpr left, same⟩
    · exact .inl ⟨.inr made, (live (.inr made)).mpr left, same⟩
    · exact .inr ⟨there, fun mine => off y (mine ▸ there), absent⟩
  · rintro (⟨rfl | made, alive, same⟩ | ⟨there, -, absent⟩)
    · exact .inl ⟨rfl, (live (.inl rfl)).mp alive, same⟩
    · exact .inr (.inl ⟨made, (live (.inr made)).mp alive, same⟩)
    · exact .inr (.inr ⟨there, absent⟩)

theorem announces_execution (ex : e.Executed o x m.now) (positive : 0 < o.quantity)
    (fresh : ∀ z ∈ e.book.orders, z.id ≠ o.id) :
    Announces e (x.events m.now) (x.order :: x.makers) x.trades where
  states := by
    intro y
    have measured : 0 < x.order.filled ∨ 0 < x.order.quantity := by
      have size : x.order.size = o.quantity := ex.taker.size
      unfold Order.filled
      omega
    rw [x.events_eq, List.filterMap_append, List.mem_append, order?_fills,
      mem_order?_takerEvents x m.now measured, List.mem_cons, Execution.makers]
    exact or_comm
  distinct := List.nodup_cons.mpr ⟨ex.apart, ex.distinct⟩
  trades := by
    rw [x.events_eq, List.filterMap_append, trade?_fills, trade?_takerEvents, List.append_nil]
    rfl
  matched := matched_execution ex
  replayed _ holds := replayed_execution ex fresh holds

theorem announces_cancellation (e : Engine) (now : Instant)
    (ended : gone.status.isTerminal = true) :
    Announces e [.cancelled gone now] [gone] [] where
  states := by simp [Event.order?, eq_comm]
  distinct := List.nodup_singleton _
  trades := rfl
  matched := fun _ => rfl
  replayed := by
    intro held _ id y
    change Function.update held gone.id none id = some y ↔ _
    rw [List.map_singleton, List.mem_singleton, List.mem_singleton]
    by_cases same : id = gone.id
    · subst same
      rw [Function.update_self]
      constructor
      · exact nofun
      · rintro (⟨rfl, live, -⟩ | ⟨-, other⟩)
        · rw [ended] at live
          cases live
        · exact absurd rfl other
    · rw [Function.update_of_ne same]
      constructor
      · exact fun there => .inr ⟨there, same⟩
      · rintro (⟨rfl, -, id⟩ | ⟨there, -⟩)
        · exact absurd id.symm same
        · exact there

theorem Handled.announces (h : Records s e) (f : Handled e s m c r e' s') :
    Announces e (announced m.now r) (ordersOf r) (tradesOf r) := by
  cases f with
  | rejected => exact announces_nothing e
  | accepted accepted _ hx =>
    obtain ⟨positive, fresh, -⟩ := h.sound.rejection?_none.mp accepted
    exact announces_execution (h.sound.executed fresh hx) positive fresh
  | cancelled _ _ _ hg => exact announces_cancellation e m.now (by rw [hg]; rfl)
  | absent => exact announces_nothing e
  | best => exact announces_nothing e
  | found => exact announces_nothing e
  | depth => exact announces_nothing e

end Bourse
