import Bourse.Proofs.Desk.Commands
import Bourse.Proofs.Engine.Executions

/-! What one command posts to the ledger: some orders as they now are, and some trades, which tell
how much each of these orders has lost. -/
namespace Bourse

namespace Trade

def party (t : Trade) : Side → OrderId
  | .buy => t.buyer
  | .sell => t.seller

theorem party_takerSide (t : Trade) : t.party t.takerSide = t.taker := by
  unfold party buyer seller
  cases t.takerSide <;> rfl

theorem party_opposite (t : Trade) : t.party t.takerSide.opposite = t.maker := by
  unfold party buyer seller
  cases t.takerSide <;> rfl

theorem involves_iff (t : Trade) (id : OrderId) :
    t.involves id = true ↔ ∃ side, t.party side = id := by
  rw [involves, Bool.or_eq_true, beq_iff_eq, beq_iff_eq, ← t.party_takerSide, ← t.party_opposite]
  constructor
  · rintro (taker | maker)
    · exact ⟨_, taker⟩
    · exact ⟨_, maker⟩
  · rintro ⟨side, same⟩
    rcases Side.eq_or_eq_opposite side t.takerSide with own | other
    · exact .inl (own ▸ same)
    · exact .inr (other ▸ same)

end Trade

/-- The orders `os` are posted as they now are, and the trades `ts` at the end. Each of the orders
has just been taken in or had not ended, and no trade is posted without both of its orders. -/
structure Ledger.Posted (l : Ledger) (taken os : List Order) (ts : List Trade) (l' : Ledger) :
    Prop where
  mem : ∀ y, y ∈ l'.orders ↔ y ∈ os ∨ y ∈ l.orders ∧ y.id ∉ os.map (·.id)
  trades : l'.trades = l.trades ++ ts
  opened : ∀ o ∈ taken, ∃ y ∈ os, o.whole.Traded ts y
  written : ∀ y ∈ os, (∃ o ∈ taken, o.whole.Traded ts y) ∨
    ∃ z ∈ l.orders, z.status.isTerminal = false ∧ z.Traded ts y
  filled : ∀ y ∈ os, y.status = .filled ↔ y.quantity = 0
  parties : ∀ t ∈ ts, ∀ side, ∃ y ∈ os, y.id = t.party side ∧ y.side = side
  numbers : ts.map (·.sequence) = List.range' (l.lastTrade + 1) ts.length

namespace Ledger

theorem Posted.nothing (l : Ledger) : Posted l [] [] [] l where
  mem := by simp
  trades := by simp
  opened := nofun
  written := nofun
  filled := nofun
  parties := nofun
  numbers := rfl

theorem Posted.uninvolved {l l' : Ledger} {taken os : List Order} {ts : List Trade} {y : Order}
    (p : Posted l taken os ts l') (apart : y.id ∉ os.map (·.id)) :
    ts.filter (·.involves y.id) = [] := by
  apply List.filter_eq_nil_iff.mpr
  intro t ht involved
  obtain ⟨side, same⟩ := (t.involves_iff y.id).mp involved
  obtain ⟨z, hz, id, -⟩ := p.parties t ht side
  exact apart (List.mem_map.mpr ⟨z, hz, id.trans same⟩)

end Ledger

def Command.taken : Command → Except Rejection Reply → List Order
  | .submit o, .ok _ => [o]
  | _, _ => []

def ordersOf : Except Rejection Reply → List Order
  | .ok (.execution x) => x.order :: x.makers
  | .ok (.cancelled (some o)) => [o]
  | _ => []

def tradesOf : Except Rejection Reply → List Trade
  | .ok (.execution x) => x.trades
  | _ => []

variable {s s' : Store} {e e' : Engine} {m : Moment} {c : Command} {r : Except Rejection Reply}
  {o gone : Order} {x : Execution}

theorem Records.posted_match (h : Records s e) (accepted : e.rejection? o = none)
    (hx : x = ⟨(e.matchOf o m).taker.settled, (e.matchOf o m).fills⟩) :
    Ledger.Posted s.ledger [o] (x.order :: x.makers) x.trades (s.record x.entries).ledger := by
  obtain ⟨-, fresh, -⟩ := h.sound.rejection?_none.mp accepted
  obtain ⟨-, -, mem, trades⟩ := h.matched o m hx
  obtain ⟨taker, maker, -, apart, -⟩ := h.sound.executed fresh hx
  exact
    { mem := by
        intro y
        rw [mem, List.map_cons, List.mem_cons, List.mem_cons, not_or]
        constructor
        · rintro (made | ⟨rfl | ⟨kept, other⟩, others⟩)
          · exact .inl (.inr made)
          · exact .inl (.inl rfl)
          · exact .inr ⟨kept, other, others⟩
        · rintro ((rfl | made) | ⟨kept, other, others⟩)
          · exact .inr ⟨.inl rfl, apart⟩
          · exact .inl made
          · exact .inr ⟨.inr ⟨kept, other⟩, others⟩
      trades := trades
      opened := by
        intro y hy
        rw [List.mem_singleton.mp hy]
        exact ⟨x.order, List.mem_cons_self, taker⟩
      written := by
        intro y hy
        rcases List.mem_cons.mp hy with rfl | hy
        · exact .inl ⟨o, List.mem_cons_self, taker⟩
        · obtain ⟨f, hf, rfl⟩ := List.mem_map.mp hy
          obtain ⟨z, hz, -, traded⟩ := maker f hf
          obtain ⟨kept, live⟩ := (h.resting z).mpr hz
          exact .inr ⟨z, kept, live, traded⟩
      filled := by
        intro y hy
        rcases List.mem_cons.mp hy with rfl | hy
        · rw [hx]
          exact Order.settled_filled _
        · obtain ⟨f, hf, rfl⟩ := List.mem_map.mp hy
          obtain ⟨z, -, takes, -⟩ := maker f hf
          rw [takes.after]
          exact z.afterFill_filled _ _
      parties := by
        intro t ht side
        obtain ⟨f, hf, rfl⟩ := List.mem_map.mp ht
        obtain ⟨z, -, takes, traded⟩ := maker f hf
        rcases Side.eq_or_eq_opposite side o.side with rfl | rfl
        · refine ⟨x.order, List.mem_cons_self, ?_, taker.side⟩
          rw [← takes.takerSide, Trade.party_takerSide, takes.taker]
          exact taker.id
        · refine ⟨f.maker, List.mem_cons_of_mem _ (List.mem_map_of_mem hf), ?_,
            traded.side.trans takes.side⟩
          rw [← takes.takerSide, Trade.party_opposite, takes.maker]
          exact traded.id
      numbers := by
        rw [h.trades, Execution.trades, List.map_map, List.length_map, hx]
        exact matchQueue_sequences m e.nextTrade (e.takerOf o) _ }

theorem Records.posted_cancellation (h : Records s e) (here : o ∈ e.book.orders)
    (hg : gone = { o with status := .cancelled, updatedAt := m.now }) :
    Ledger.Posted s.ledger [] [gone] [] (s.record [.updated gone]).ledger := by
  have id : gone.id = o.id := by rw [hg]
  have updated := (h.updated here id).2
  obtain ⟨kept, live⟩ := (h.resting o).mpr here
  have left := h.sound.book.left here
  exact
    { mem := updated.mem
      trades := updated.trades.trans (List.append_nil _).symm
      opened := nofun
      written := by
        intro y hy
        rw [List.mem_singleton.mp hy, hg]
        exact .inr ⟨o, kept, live, rfl, rfl, rfl, Nat.zero_add _⟩
      filled := by
        intro y hy
        rw [List.mem_singleton.mp hy, hg]
        exact ⟨nofun, fun spent => absurd spent (Nat.ne_of_gt left)⟩
      parties := nofun
      numbers := rfl }

theorem Handled.posted (h : Records s e) (f : Handled e s m c r e' s') :
    Ledger.Posted s.ledger (c.taken r) (ordersOf r) (tradesOf r) s'.ledger := by
  cases f with
  | rejected => exact .nothing _
  | accepted accepted _ hx => exact h.posted_match accepted hx
  | cancelled here _ _ hg => exact h.posted_cancellation here hg
  | absent => exact .nothing _
  | best => exact .nothing _
  | found => exact .nothing _
  | depth => exact .nothing _

end Bourse
