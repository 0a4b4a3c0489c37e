import Bourse.Proofs.Decimal.Difference
import Bourse.Proofs.Engine.Runs

/-! Bids stay below asks. An order only comes to rest once nothing is left on the other side that it
could trade with, so a book in which the sides do not meet stays one, and there is a positive
distance between its best orders. -/
namespace Bourse

/-- Every bid is below every ask. -/
def Separate (os : List Order) : Prop :=
  ∀ bid ∈ os, ∀ ask ∈ os, bid.side = .buy → ask.side = .sell → bid.price < ask.price

/-- The best bid is below the best ask, if there are both. -/
def Book.Uncrossed (b : Book) : Prop :=
  ∀ bid ask, b.bestPrice .buy = .ok (some bid) → b.bestPrice .sell = .ok (some ask) → bid < ask

/-- The best orders of both sides, and a positive distance from the one up to the other. -/
structure Book.Gap (b : Book) (bid ask : Order) (distance : Decimal) : Prop where
  buy : b.best .buy = .ok (some bid) ∧ b.bestPrice .buy = .ok (some bid.price)
  sell : b.best .sell = .ok (some ask) ∧ b.bestPrice .sell = .ok (some ask.price)
  below : bid.price < ask.price
  spread : b.spread = .ok (some distance)
  positive : distance.isPositive = true

theorem lt_iff_not_crosses (bid ask : Price) : bid < ask ↔ Side.crosses .buy bid ask = false := by
  simp only [Side.crosses, decide_eq_false_iff_not]
  exact (not_not (a := bid < ask)).symm

theorem separate_iff (side : Side) (os : List Order) : Separate os ↔
    ∀ x ∈ os, ∀ y ∈ os, x.side = side → y.side = side.opposite →
      side.crosses x.price y.price = false := by
  cases side with
  | buy =>
    constructor
    · intro h x hx y hy own other
      exact (lt_iff_not_crosses _ _).mp (h x hx y hy own other)
    · intro h bid hbid ask hask own other
      exact (lt_iff_not_crosses _ _).mpr (h bid hbid ask hask own other)
  | sell =>
    constructor
    · intro h x hx y hy own other
      exact (lt_iff_not_crosses _ _).mp (h y hy x hx other own)
    · intro h bid hbid ask hask other own
      exact (lt_iff_not_crosses _ _).mpr (h ask hask bid hbid own other)

/-- A taker of which something is left has traded with all that it could. -/
theorem matchQueue_rest_apart {m : Moment} {number : Nat} {taker : Order} {os : List Order}
    (inTurn : os.Pairwise (Order.ahead taker.side.opposite))
    (left : (matchQueue m number taker os).taker.quantity ≠ 0) :
    ∀ x ∈ (matchQueue m number taker os).rest,
      taker.side.crosses taker.price x.price = false := by
  induction os generalizing number taker with
  | nil =>
    intro x hx
    cases hx
  | cons o os ih =>
    have parts := List.pairwise_cons.mp inTurn
    simp only [matchQueue] at left ⊢
    split at left
    · rename_i stop
      rw [if_pos stop]
      have apart := stop.resolve_left left
      intro x hx
      rcases List.mem_cons.mp hx with rfl | hx
      · exact apart
      · exact Order.apart_of_ahead (parts.1 x hx) apart
    · rename_i go
      rw [if_neg go]
      split at left
      · rename_i spent
        rw [if_pos spent]
        have rest : os.Pairwise (Order.ahead
            (taker.afterTaking (min taker.quantity o.quantity) m.now).side.opposite) := parts.2
        exact ih rest left
      · -- A maker of which something is left has used up the taker.
        rename_i more
        exfalso
        apply left
        simp only [Order.afterTaking]
        omega

namespace Book

variable {b : Book} {bid ask x : Order} {rest : List Order}

theorem Sound.bestPrice (h : b.Sound) (side : Side) :
    b.bestPrice side = .ok ((b.ladder side).orders.head?.map (·.price)) :=
  (h.ladders side).bestPrice

theorem Sound.best (h : b.Sound) (side : Side) :
    b.best side = .ok (b.ladder side).orders.head? :=
  (h.ladders side).best

theorem Sound.uncrossed (h : b.Sound) (separate : Separate b.orders) : b.Uncrossed := by
  intro bid ask hbid hask
  rw [h.bestPrice] at hbid hask
  obtain ⟨x, hx, rfl⟩ := Option.map_eq_some_iff.mp (Except.ok.inj hbid)
  obtain ⟨y, hy, rfl⟩ := Option.map_eq_some_iff.mp (Except.ok.inj hask)
  have mine : x ∈ (b.ladder .buy).orders := List.mem_of_mem_head? hx
  have theirs : y ∈ (b.ladder .sell).orders := List.mem_of_mem_head? hy
  exact separate x (List.mem_append_left _ mine) y (List.mem_append_right _ theirs)
    (h.own mine) (h.own theirs)

theorem Sound.separate (h : b.Sound) (uncrossed : b.Uncrossed) : Separate b.orders := by
  intro bid hbid ask hask buys sells
  have mine : bid ∈ (b.ladder .buy).orders := buys ▸ h.mem_orders.mp hbid
  have theirs : ask ∈ (b.ladder .sell).orders := sells ▸ h.mem_orders.mp hask
  obtain ⟨top, bids, hbids⟩ := List.exists_cons_of_ne_nil (List.ne_nil_of_mem mine)
  obtain ⟨bottom, asks, hasks⟩ := List.exists_cons_of_ne_nil (List.ne_nil_of_mem theirs)
  have between : top.price < bottom.price := by
    apply uncrossed
    · rw [h.bestPrice, hbids]; rfl
    · rw [h.bestPrice, hasks]; rfl
  have apart : Side.crosses .buy top.price ask.price = false := by
    have first := (lt_iff_not_crosses _ _).mp between
    rw [hasks] at theirs
    rcases List.mem_cons.mp theirs with rfl | behind
    · exact first
    · have inTurn := (h.ladders .sell).pairwise
      rw [hasks] at inTurn
      exact Order.apart_of_ahead ((List.pairwise_cons.mp inTurn).1 ask behind) first
  have below := (lt_iff_not_crosses _ _).mpr apart
  rw [hbids] at mine
  rcases List.mem_cons.mp mine with rfl | behind
  · exact below
  · have inTurn := (h.ladders .buy).pairwise
    rw [hbids] at inTurn
    rcases (List.pairwise_cons.mp inTurn).1 bid behind with better | ⟨same, -⟩
    · exact Price.lt_trans (of_decide_eq_true better) below
    · exact same ▸ below

theorem Sound.gap (h : b.Sound) (uncrossed : b.Uncrossed) (bids : b.bids.orders ≠ [])
    (asks : b.asks.orders ≠ []) : ∃ bid ask distance, b.Gap bid ask distance := by
  obtain ⟨bid, behind, hbids⟩ := List.exists_cons_of_ne_nil bids
  obtain ⟨ask, behind', hasks⟩ := List.exists_cons_of_ne_nil asks
  have buy : (b.ladder .buy).orders = bid :: behind := hbids
  have sell : (b.ladder .sell).orders = ask :: behind' := hasks
  have bidPrice : b.bestPrice .buy = .ok (some bid.price) := by rw [h.bestPrice, buy]; rfl
  have askPrice : b.bestPrice .sell = .ok (some ask.price) := by rw [h.bestPrice, sell]; rfl
  have below := uncrossed _ _ bidPrice askPrice
  obtain ⟨distance, minus, positive⟩ := Price.isPositive_minus below
  refine ⟨bid, ask, distance, ⟨?_, bidPrice⟩, ⟨?_, askPrice⟩, below, ?_, positive⟩
  · rw [h.best, buy]; rfl
  · rw [h.best, sell]; rfl
  · simp only [Book.spread, bidPrice, askPrice, ok_bind, spreadOf, minus]
    rfl

end Book

namespace Engine

variable {e e' : Engine} {o : Order} {m : Moment} {i : Instruction} {out : Outcome}

theorem Accepted.separate (h : e.Sound) (a : Accepted e o (e.matchOf o m) e')
    (separate : Separate e.book.orders) : Separate e'.book.orders := by
  have sides := Book.orders_perm e.book o.side
  have before := (separate_iff o.side _).mp separate
  refine (separate_iff o.side _).mpr fun x hx y hy own other => ?_
  have mine := a.own.mem_iff.mp (own ▸ a.sound.book.mem_orders.mp hx)
  have theirs : y ∈ (e.matchOf o m).rest := by
    rw [← a.queue, ← other]
    exact a.sound.book.mem_orders.mp hy
  rcases List.mem_append.mp mine with taker | mine
  · obtain ⟨rfl, live⟩ := mem_resting_settled.mp taker
    have left : (e.matchOf o m).taker.quantity ≠ 0 := by
      intro zero
      simp [Order.settled, zero, Status.isTerminal] at live
    obtain ⟨_, _, _, -, settled⟩ := e.matchOf_settled o m
    rw [settled]
    have inTurn : (e.book.ladder o.side.opposite).orders.Pairwise
        (Order.ahead (e.takerOf o).side.opposite) := (h.book.ladders _).pairwise
    exact matchQueue_rest_apart inTurn left y theirs
  · have part := matchQueue_rest_sublist Order.price (fun _ _ _ => rfl) m e.nextTrade
      (e.takerOf o) (e.book.ladder o.side.opposite).orders
    obtain ⟨z, hz, same⟩ := List.mem_map.mp (part.subset (List.mem_map_of_mem theirs))
    rw [← same]
    exact before x (sides.mem_iff.mpr (List.mem_append_left _ mine)) z
      (sides.mem_iff.mpr (List.mem_append_right _ hz)) own (h.book.own hz)

theorem Effect.separate (h : e.Sound) (f : Effect e (.instruct i) out e')
    (separate : Separate e.book.orders) : Separate e'.book.orders := by
  cases f with
  | rejected => exact separate
  | accepted _ a => exact a.separate h separate
  | cancelled _ c =>
    intro bid hbid ask hask
    exact separate bid (c.orders.mem_iff.mpr (List.mem_cons_of_mem _ hbid))
      ask (c.orders.mem_iff.mpr (List.mem_cons_of_mem _ hask))
  | absent => exact separate

theorem Ran.separate {is : List Instruction} {outs : List Outcome} (h : e.Sound)
    (r : Ran e (is.map .instruct) outs e') (separate : Separate e.book.orders) :
    Separate e'.book.orders := by
  induction is generalizing e outs with
  | nil =>
    cases r
    exact separate
  | cons i is ih =>
    cases r with
    | cons f more => exact ih (f.advances h).sound more (f.separate h separate)

theorem Returned.known {os placed : List Order} (r : Returned e os placed e') :
    ∀ x ∈ e'.book.orders, x ∈ e.book.orders ∨ ∃ y ∈ os, y.side = x.side ∧ y.price = x.price := by
  induction r with
  | nil =>
    intro x hx
    exact .inl hx
  | skipped _ _ ih =>
    intro x hx
    rcases ih x hx with there | ⟨y, hy, same⟩
    · exact .inl there
    · exact .inr ⟨y, List.mem_cons_of_mem _ hy, same⟩
  | @placed e e₁ e' o os placed _ _ one _ ih =>
    intro x hx
    rcases ih x hx with there | ⟨y, hy, same⟩
    · rcases List.mem_cons.mp (one.orders.mem_iff.mp there) with rfl | there
      · exact .inr ⟨o, List.mem_cons_self, rfl, rfl⟩
      · exact .inl there
    · exact .inr ⟨y, List.mem_cons_of_mem _ hy, same⟩

theorem Ran.separate_restored {os : List Order} {outs : List Outcome}
    (r : Ran new [.restore os] outs e) (separate : Separate os) : Separate e.book.orders := by
  cases r with
  | cons f more =>
    cases more
    cases f with
    | restored returned =>
      have known : ∀ x ∈ e.book.orders, ∃ y ∈ os, y.side = x.side ∧ y.price = x.price := by
        intro x hx
        rcases returned.known x hx with there | ⟨y, hy, same⟩
        · cases there
        · exact ⟨y, (List.mergeSort_perm os Order.comesBefore).mem_iff.mp hy, same⟩
      intro bid hbid ask hask buys sells
      obtain ⟨x, hx, side, price⟩ := known bid hbid
      obtain ⟨y, hy, side', price'⟩ := known ask hask
      rw [← price, ← price']
      exact separate x hx y hy (side.trans buys) (side'.trans sells)

/-- Submissions and cancellations never make the sides meet, whatever was called before them, as
long as it left a book whose sides do not: a new one, say, or one that such orders were restored to.
While orders rest on both sides, the distance between the best of them is a positive decimal. -/
theorem never_crossed (past : List Step) (is : List Instruction) :
    ∃ e outs e' outs', new.run past = .ok (e, outs) ∧
      e.run (is.map .instruct) = .ok (e', outs') ∧
      (past = [] → e.book.Uncrossed) ∧
      (∀ os, past = [.restore os] → Separate os → e.book.Uncrossed) ∧
      (e.book.Uncrossed → e'.book.Uncrossed ∧
        (e'.book.bids.orders ≠ [] → e'.book.asks.orders ≠ [] →
          ∃ bid ask distance, e'.book.Gap bid ask distance)) := by
  obtain ⟨e, outs, hok, ran⟩ := sound_new.run past
  have sound := (ran.advances sound_new).sound
  obtain ⟨e', outs', hok', ran'⟩ := sound.run (is.map .instruct)
  have sound' := (ran'.advances sound).sound
  refine ⟨e, outs, e', outs', hok, hok', ?_, ?_, ?_⟩
  · rintro rfl
    cases ran
    apply sound_new.book.uncrossed
    intro bid hbid
    cases hbid
  · rintro os rfl separate
    exact sound.book.uncrossed (ran.separate_restored separate)
  · intro uncrossed
    have separate := ran'.separate sound (sound.book.separate uncrossed)
    have uncrossed' := sound'.book.uncrossed separate
    exact ⟨uncrossed', fun bids asks => sound'.book.gap uncrossed' bids asks⟩

end Engine
end Bourse
