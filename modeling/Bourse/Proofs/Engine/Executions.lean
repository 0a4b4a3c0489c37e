import Bourse.Proofs.Engine.Quantities

/-! Executions: what the fills of one submission tell of the order and of its makers. Each maker has
lost what its trade tells, the makers are different orders, and none of them is the taker. -/
namespace Bourse

/-- An order as it is taken in: none of it has traded. -/
def Order.whole (o : Order) : Order := { o with size := o.quantity }

/-- What some trades leave of an order. -/
structure Order.Traded (ts : List Trade) (o o' : Order) : Prop where
  id : o'.id = o.id
  side : o'.side = o.side
  size : o'.size = o.size
  quantity : sumOf Trade.quantity (ts.filter (·.involves o.id)) + o'.quantity = o.quantity

theorem Order.afterFill_filled (o : Order) (quantity : Nat) (now : Instant) :
    (o.afterFill quantity now).status = .filled ↔ (o.afterFill quantity now).quantity = 0 := by
  unfold afterFill
  dsimp only
  split
  · rename_i spent
    exact ⟨fun _ => spent, fun _ => rfl⟩
  · rename_i left
    exact ⟨nofun, fun spent => absurd spent left⟩

theorem Order.settled_filled (o : Order) : o.settled.status = .filled ↔ o.settled.quantity = 0 := by
  unfold settled
  dsimp only
  split
  · rename_i spent
    exact ⟨fun _ => spent, fun _ => rfl⟩
  · rename_i left
    refine ⟨fun ended => ?_, fun spent => absurd spent left⟩
    have live := o.liveStatus_isTerminal
    rw [ended] at live
    cases live

theorem Order.afterFill_live (o : Order) (quantity : Nat) (now : Instant) :
    (o.afterFill quantity now).status.isTerminal = false ↔
      (o.afterFill quantity now).quantity ≠ 0 := by
  unfold afterFill
  dsimp only
  split
  · rename_i spent
    exact ⟨nofun, fun left => absurd spent left⟩
  · rename_i left
    exact ⟨fun _ => left, fun _ => rfl⟩

theorem Order.settled_live (o : Order) :
    o.settled.status.isTerminal = false ↔ o.settled.quantity ≠ 0 := by
  unfold settled
  dsimp only
  split
  · rename_i spent
    exact ⟨nofun, fun left => absurd spent left⟩
  · rename_i left
    exact ⟨fun _ => left, fun _ => o.liveStatus_isTerminal⟩

/-- A fill by which the order `o` has taken a part of the order `z`. -/
structure Fill.Takes (f : Fill) (o z : Order) (now : Instant) : Prop where
  side : z.side = o.side.opposite
  taker : f.trade.taker = o.id
  maker : f.trade.maker = z.id
  takerSide : f.trade.takerSide = o.side
  enough : f.trade.quantity ≤ z.quantity
  after : f.maker = z.afterFill f.trade.quantity now

namespace Engine

variable {e : Engine} {o z : Order} {m : Moment} {f : Fill}

theorem Sound.of_mem_fills (h : e.Sound) (hf : f ∈ (e.matchOf o m).fills) :
    ∃ z ∈ e.book.orders, f.Takes o z m.now := by
  obtain ⟨z, hz, taker, maker, takerSide, enough, after⟩ :=
    of_mem_matchQueue_fills m e.nextTrade (e.takerOf o) _ hf
  exact ⟨z, Book.mem_of_ladder hz, h.book.own hz, taker, maker, takerSide, enough, after⟩

theorem Sound.taker_traded (h : e.Sound) (o : Order) (m : Moment) :
    o.whole.Traded ((e.matchOf o m).fills.map (·.trade)) (e.matchOf o m).taker.settled := by
  have all : ((e.matchOf o m).fills.map (·.trade)).filter (·.involves o.id) =
      (e.matchOf o m).fills.map (·.trade) := by
    apply List.filter_eq_self.mpr
    intro t ht
    obtain ⟨f, hf, rfl⟩ := List.mem_map.mp ht
    obtain ⟨z, -, takes⟩ := h.of_mem_fills hf
    simp [Trade.involves, takes.taker]
  have quantity := e.matchOf_quantity o m
  obtain ⟨_, _, _, -, settled⟩ := e.matchOf_settled o m
  refine ⟨by rw [settled]; rfl, by rw [settled]; rfl, by rw [settled]; rfl, ?_⟩
  rw [← sumOf_map Trade.quantity, ← all] at quantity
  exact quantity

theorem Sound.maker_traded (h : e.Sound) (fresh : ∀ x ∈ e.book.orders, x.id ≠ o.id)
    (hf : f ∈ (e.matchOf o m).fills) (hz : z ∈ e.book.orders) (takes : f.Takes o z m.now) :
    z.Traded ((e.matchOf o m).fills.map (·.trade)) f.maker := by
  have id : f.maker.id = z.id := by rw [takes.after]; rfl
  -- One trade is that of this maker: the makers are different orders and none of them is the taker.
  have mine : ∀ g ∈ (e.matchOf o m).fills,
      g.trade.involves z.id = (g.maker.id == f.maker.id) := by
    intro g hg
    obtain ⟨y, -, takes'⟩ := h.of_mem_fills hg
    have id' : g.maker.id = y.id := by rw [takes'.after]; rfl
    have other : (o.id == z.id) = false := beq_eq_false_iff_ne.mpr (fresh z hz).symm
    rw [Trade.involves, takes'.taker, takes'.maker, other, id, id', Bool.false_or]
  have distinct := (h.makers o m).1
  rw [List.map_map] at distinct
  have once : ((e.matchOf o m).fills.map (·.trade)).filter (·.involves z.id) = [f.trade] := by
    rw [List.filter_map]
    exact congrArg _ ((List.filter_congr mine).trans (filter_key_of_mem distinct hf))
  have enough := takes.enough
  refine ⟨id, by rw [takes.after]; rfl, by rw [takes.after]; rfl, ?_⟩
  rw [once, takes.after, Order.afterFill_quantity, sumOf_cons, sumOf_nil]
  omega

/-- What an execution of the order `o` tells of it and of its makers, which rested before. -/
structure Executed (e : Engine) (o : Order) (x : Execution) (now : Instant) : Prop where
  taker : o.whole.Traded x.trades x.order
  maker : ∀ f ∈ x.fills, ∃ z ∈ e.book.orders, f.Takes o z now ∧ z.Traded x.trades f.maker
  distinct : (x.makers.map (·.id)).Nodup
  apart : x.order.id ∉ x.makers.map (·.id)
  live : ∀ y ∈ x.order :: x.makers, y.status.isTerminal = false ↔ y.quantity ≠ 0

theorem Sound.executed (h : e.Sound) (fresh : ∀ z ∈ e.book.orders, z.id ≠ o.id) {x : Execution}
    (hx : x = ⟨(e.matchOf o m).taker.settled, (e.matchOf o m).fills⟩) : Executed e o x m.now := by
  have taker : o.whole.Traded x.trades x.order := by
    rw [hx]
    exact h.taker_traded o m
  have maker : ∀ f ∈ x.fills, ∃ z ∈ e.book.orders, f.Takes o z m.now ∧
      z.Traded x.trades f.maker := by
    intro f hf
    rw [hx] at hf ⊢
    obtain ⟨z, hz, takes⟩ := h.of_mem_fills hf
    exact ⟨z, hz, takes, h.maker_traded fresh hf hz takes⟩
  refine ⟨taker, maker, ?_, fun hm => ?_, fun y hy => ?_⟩
  · rw [hx]
    exact (h.makers o m).1
  · obtain ⟨y, hy, same⟩ := List.mem_map.mp hm
    obtain ⟨f, hf, rfl⟩ := List.mem_map.mp hy
    obtain ⟨z, hz, -, traded⟩ := maker f hf
    exact fresh z hz (traded.id.symm.trans (same.trans taker.id))
  · rcases List.mem_cons.mp hy with rfl | hy
    · rw [hx]
      exact Order.settled_live _
    · obtain ⟨f, hf, rfl⟩ := List.mem_map.mp hy
      obtain ⟨z, -, takes, -⟩ := maker f hf
      rw [takes.after]
      exact z.afterFill_live _ _

end Engine

end Bourse
