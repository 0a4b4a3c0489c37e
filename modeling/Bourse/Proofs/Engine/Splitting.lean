import Bourse.Proofs.Engine.Counters
import Bourse.Proofs.Engine.PlainBook
import Bourse.Proofs.Engine.Quantities
import Bourse.Proofs.Engine.Views

/-! Splitting. An order that comes in two parts, one right after the other, gets what it would have
got as one: where the cut falls within a maker, that maker trades twice in place of once, and
nothing else tells. -/
namespace Bourse

/-- A deal in front of others, made into one with the next if that is with the same maker. -/
def Deal.before (d : Deal) : List Deal → List Deal
  | [] => [d]
  | x :: ds =>
    if d.maker = x.maker then { d with quantity := d.quantity + x.quantity } :: ds
    else d :: x :: ds

/-- Deals of which neighbours with one maker are made into one. -/
def merged (ds : List Deal) : List Deal := ds.foldr Deal.before []

section Merged

variable {d : Deal} {ds : List Deal}

theorem merged_cons (d : Deal) (ds : List Deal) : merged (d :: ds) = d.before (merged ds) := rfl

theorem Deal.before_other (other : ∀ x ∈ ds, x.maker ≠ d.maker) : d.before ds = d :: ds := by
  cases ds with
  | nil => rfl
  | cons x ds => exact if_neg (other x List.mem_cons_self).symm

theorem merged_of_nodup (distinct : (ds.map (·.maker)).Nodup) : merged ds = ds := by
  induction ds with
  | nil => rfl
  | cons d ds ih =>
    have parts := List.nodup_cons.mp distinct
    rw [merged_cons, ih parts.2, Deal.before_other]
    intro x hx same
    exact parts.1 (List.mem_map.mpr ⟨x, hx, same⟩)

/-- Of two deals in front of others, both with one maker, there becomes one. -/
theorem merged_twice {d' : Deal} (same : d.maker = d'.maker)
    (distinct : ((d' :: ds).map (·.maker)).Nodup) :
    merged (d :: d' :: ds) = { d with quantity := d.quantity + d'.quantity } :: ds := by
  rw [merged_cons, merged_of_nodup distinct]
  exact if_pos same

end Merged

/-- An order in two parts, of which the first may be nothing. -/
structure Order.Cut (o a b : Order) : Prop where
  side₁ : a.side = o.side
  side₂ : b.side = o.side
  price₁ : a.price = o.price
  price₂ : b.price = o.price
  quantity : a.quantity + b.quantity = o.quantity

theorem Order.Cut.crosses {o a b : Order} (cut : o.Cut a b) (p : Price) :
    a.side.crosses a.price p = o.side.crosses o.price p ∧
      b.side.crosses b.price p = o.side.crosses o.price p := by
  rw [cut.side₁, cut.side₂, cut.price₁, cut.price₂]
  exact ⟨rfl, rfl⟩

/-- An order in two parts, each an order of its own. -/
structure Order.Parts (o a b : Order) : Prop extends o.Cut a b where
  first : 0 < a.quantity
  second : 0 < b.quantity
  apart : a.id ≠ b.id

/-- Matches that differ in clock readings, in numbers and in who the taker is. -/
structure Matched.Alike (r r' : Matched) : Prop where
  left : r.taker.quantity = r'.taker.quantity
  deals : r.fills.map Fill.deal = r'.fills.map Fill.deal
  rest : r.rest.map (·.seen (.timeless id)) = r'.rest.map (·.seen (.timeless id))

/-- Two matches, one after the other, that come to what the third one does. -/
structure Matched.Joined (r₁ r₂ r : Matched) : Prop where
  left : r₁.taker.quantity + r₂.taker.quantity = r.taker.quantity
  deals : merged ((r₁.fills ++ r₂.fills).map Fill.deal) = r.fills.map Fill.deal
  rest : r₂.rest.map (·.seen (.timeless id)) = r.rest.map (·.seen (.timeless id))

/-- The same deal in front of the first match and of the whole one. -/
theorem Matched.Joined.cons {r₁ r₂ r : Matched} {f₁ f : Fill} (j : r₁.Joined r₂ r)
    (same : f₁.deal = f.deal)
    (distinct : (((f :: r.fills).map Fill.deal).map (·.maker)).Nodup) :
    Joined { r₁ with fills := f₁ :: r₁.fills } r₂ { r with fills := f :: r.fills } where
  left := j.left
  deals :=
    calc merged ((f₁ :: r₁.fills ++ r₂.fills).map Fill.deal)
        = f₁.deal.before (merged ((r₁.fills ++ r₂.fills).map Fill.deal)) := rfl
      _ = f.deal.before (merged (r.fills.map Fill.deal)) := by
        rw [same, j.deals, merged_of_nodup (List.nodup_cons.mp distinct).2]
      _ = merged ((f :: r.fills).map Fill.deal) := rfl
      _ = (f :: r.fills).map Fill.deal := merged_of_nodup distinct
  rest := j.rest

theorem afterFill_timeless {o o' : Order}
    (like : o.seen (.timeless id) = o'.seen (.timeless id)) (quantity : Nat) (now now' : Instant) :
    (o.afterFill quantity now).seen (.timeless id) =
      (o'.afterFill quantity now').seen (.timeless id) :=
  calc (o.afterFill quantity now).seen (.timeless id)
      = (o.seen (.timeless id)).afterFill quantity .epoch := rfl
    _ = (o'.seen (.timeless id)).afterFill quantity .epoch := by rw [like]
    _ = (o'.afterFill quantity now').seen (.timeless id) := rfl

/-- Two fills of an order leave what one fill of both quantities does. -/
theorem afterFill_twice (o : Order) (q₁ q₂ : Nat) (now₁ now₂ now : Instant) :
    ((o.afterFill q₁ now₁).afterFill q₂ now₂).seen (.timeless id) =
      (o.afterFill (q₁ + q₂) now).seen (.timeless id) := by
  simp only [Order.afterFill, Order.seen, Nat.sub_sub]
  rfl

theorem fillHead_twice (o : Order) (q₁ q₂ : Nat) (now₁ now₂ now : Instant) (os : List Order) :
    (fillHead (o.afterFill q₁ now₁) q₂ now₂ os).map (·.seen (.timeless id)) =
      (fillHead o (q₁ + q₂) now os).map (·.seen (.timeless id)) := by
  simp only [fillHead, Order.afterFill_quantity, Nat.sub_sub]
  split
  · rfl
  · exact congrArg (· :: os.map _) (afterFill_twice o q₁ q₂ now₁ now₂ now)

section MatchQueue

variable {m m' m₁ m₂ : Moment} {n n' n₁ n₂ : Nat} {t t' t₁ t₂ : Order} {os os' : List Order}

/-- A match goes by the side, the limit and the quantity of the taker. -/
theorem matchQueue_alike (side : t.side = t'.side) (price : t.price = t'.price)
    (quantity : t.quantity = t'.quantity)
    (like : os.map (·.seen (.timeless id)) = os'.map (·.seen (.timeless id))) :
    (matchQueue m n t os).Alike (matchQueue m' n' t' os') := by
  induction os generalizing n n' t t' os' with
  | nil =>
    rw [List.map_nil] at like
    rw [List.map_eq_nil_iff.mp like.symm]
    exact ⟨quantity, rfl, rfl⟩
  | cons o os ih =>
    obtain ⟨o', os', rfl, first, rest⟩ := List.map_eq_cons_iff.mp like.symm
    have name : o'.id = o.id := (congrArg Order.id first :)
    have cost : o'.price = o.price := (congrArg Order.price first :)
    have amount : o'.quantity = o.quantity := (congrArg Order.quantity first :)
    have deal : (fillOf m n t o).deal = (fillOf m' n' t' o').deal := by
      simp only [fillOf, Fill.deal, name, cost, amount, quantity]
    have maker : (fillOf m n t o).maker.seen (.timeless id) =
        (fillOf m' n' t' o').maker.seen (.timeless id) := by
      simp only [fillOf, amount, quantity]
      exact afterFill_timeless first.symm _ _ _
    have taken (now : Instant) (q : Nat) : (t.afterTaking q now).quantity = t'.quantity - q :=
      congrArg (· - q) quantity
    simp only [matchQueue, side, price, quantity, cost, amount]
    split
    · exact ⟨quantity, rfl, like⟩
    · split
      · have more : (matchQueue m (n + 1)
            (t.afterTaking (min t'.quantity o.quantity) m.now) os).Alike
            (matchQueue m' (n' + 1) (t'.afterTaking (min t'.quantity o.quantity) m'.now) os') :=
          ih side price (taken m.now _) rest.symm
        exact ⟨more.left, congrArg₂ List.cons deal more.deals, more.rest⟩
      · exact ⟨taken m.now _, congrArg (· :: []) deal, congrArg₂ List.cons maker rest.symm⟩

/-- No maker has more than one deal with a taker. -/
theorem nodup_deals (ids : (os.map (·.id)).Nodup) (m : Moment) (n : Nat) (t : Order) :
    (((matchQueue m n t os).fills.map Fill.deal).map (·.maker)).Nodup := by
  have makers : ((matchQueue m n t os).fills.map Fill.deal).map (·.maker) =
      (matchQueue m n t os).fills.map (·.maker.id) := by
    rw [List.map_map]
    refine List.map_congr_left fun f hf => ?_
    obtain ⟨o, -, -, maker, -, -, left⟩ := of_mem_matchQueue_fills m n t os hf
    exact maker.trans (congrArg Order.id left.symm :)
  rw [makers]
  exact ids.sublist (matchQueue_makers m n t os).sublist

variable {o : Order}

/-- A taker that ends within the order in front leaves that order in its place. -/
theorem matchQueue_within (begun : t.quantity ≠ 0)
    (crosses : t.side.crosses t.price o.price = true) (within : t.quantity < o.quantity) :
    matchQueue m n t (o :: os) = ⟨t.afterTaking t.quantity m.now, [fillOf m n t o],
      o.afterFill t.quantity m.now :: os⟩ := by
  have done : (t.afterTaking t.quantity m.now).quantity = 0 := Nat.sub_self _
  have stays : fillHead o t.quantity m.now os = o.afterFill t.quantity m.now :: os :=
    if_neg (by omega)
  simp only [matchQueue_fill begun crosses, Nat.min_eq_left within.le, stays, matchQueue_spent done]

/-- Where the first part ends within the order in front, that order trades with both. -/
theorem matchQueue_cut_within (cut : t.Cut t₁ t₂) (begun : t₁.quantity ≠ 0)
    (more : t₂.quantity ≠ 0) (crosses : t.side.crosses t.price o.price = true)
    (within : t₁.quantity < o.quantity) (ids : ((o :: os).map (·.id)).Nodup) :
    (matchQueue m₁ n₁ t₁ (o :: os)).Joined
      (matchQueue m₂ n₂ t₂ (matchQueue m₁ n₁ t₁ (o :: os)).rest) (matchQueue m n t (o :: os)) := by
  have whole := cut.quantity
  obtain ⟨crosses₁, crosses₂⟩ := cut.crosses o.price
  have distinct := nodup_deals ids m n t
  rw [matchQueue_fill (by omega) crosses] at distinct ⊢
  rw [matchQueue_within begun (crosses₁.trans crosses) within,
    matchQueue_fill more (o := o.afterFill t₁.quantity m₁.now) (crosses₂.trans crosses)]
  obtain ⟨q₂, second⟩ : ∃ q₂, min t₂.quantity (o.afterFill t₁.quantity m₁.now).quantity = q₂ :=
    ⟨_, rfl⟩
  have both : min t.quantity o.quantity = t₁.quantity + q₂ := by
    rw [← second, Order.afterFill_quantity]
    omega
  simp only [both, second] at distinct ⊢
  have alike : (matchQueue m₂ (n₂ + 1) (t₂.afterTaking q₂ m₂.now)
      (fillHead (o.afterFill t₁.quantity m₁.now) q₂ m₂.now os)).Alike
      (matchQueue m (n + 1) (t.afterTaking (t₁.quantity + q₂) m.now)
        (fillHead o (t₁.quantity + q₂) m.now os)) := by
    refine matchQueue_alike cut.side₂ cut.price₂ ?_ (fillHead_twice o _ _ _ _ _ os)
    simp only [Order.afterTaking]
    omega
  have made : { (fillOf m₁ n₁ t₁ o).deal with
      quantity := (fillOf m₁ n₁ t₁ o).deal.quantity +
        (fillOf m₂ n₂ t₂ (o.afterFill t₁.quantity m₁.now)).deal.quantity } =
      (fillOf m n t o).deal := by
    simp only [fillOf, Fill.deal, second, both, Nat.min_eq_left within.le]
  refine ⟨?_, ?_, alike.rest⟩
  · simp only [Order.afterTaking, Nat.sub_self, Nat.zero_add]
    exact alike.left
  · rw [List.map_cons, ← made, ← alike.deals] at distinct ⊢
    exact merged_twice rfl distinct

/-- A taker that is cut in two has its first part go along the queue, and then its second part along
what the first has left of it. Where the first part ends within a maker, that maker has one deal
with each. -/
theorem matchQueue_cut (cut : t.Cut t₁ t₂) (more : t₂.quantity ≠ 0)
    (ids : (os.map (·.id)).Nodup) :
    (matchQueue m₁ n₁ t₁ os).Joined (matchQueue m₂ n₂ t₂ (matchQueue m₁ n₁ t₁ os).rest)
      (matchQueue m n t os) := by
  induction os generalizing n n₁ t t₁ with
  | nil => exact ⟨cut.quantity, rfl, rfl⟩
  | cons o os ih =>
    have distinct := nodup_deals ids m n t
    have whole := cut.quantity
    by_cases spent : t₁.quantity = 0
    · have alike : (matchQueue m₂ n₂ t₂ (o :: os)).Alike (matchQueue m n t (o :: os)) :=
        matchQueue_alike cut.side₂ cut.price₂ (by omega) rfl
      rw [matchQueue_spent spent]
      refine ⟨?_, ?_, alike.rest⟩
      · rw [spent, Nat.zero_add, alike.left]
      · rw [List.nil_append, alike.deals, merged_of_nodup distinct]
    · obtain ⟨crosses₁, crosses₂⟩ := cut.crosses o.price
      cases crosses : t.side.crosses t.price o.price with
      | false =>
        rw [matchQueue_apart crosses, matchQueue_apart (crosses₁.trans crosses),
          matchQueue_apart (crosses₂.trans crosses)]
        exact ⟨cut.quantity, rfl, rfl⟩
      | true =>
        by_cases all : o.quantity ≤ t₁.quantity
        · have taken : min t.quantity o.quantity = o.quantity := by omega
          have taken₁ : min t₁.quantity o.quantity = o.quantity := by omega
          have deal : (fillOf m₁ n₁ t₁ o).deal = (fillOf m n t o).deal := by
            simp only [fillOf, Fill.deal, taken, taken₁]
          have later : (t.afterTaking o.quantity m.now).Cut (t₁.afterTaking o.quantity m₁.now) t₂ :=
            ⟨cut.side₁, cut.side₂, cut.price₁, cut.price₂, by simp only [Order.afterTaking]; omega⟩
          rw [matchQueue_fill (by omega) crosses] at distinct ⊢
          rw [matchQueue_fill spent (crosses₁.trans crosses)]
          simp only [taken, taken₁, fillHead, Nat.sub_self, if_true] at distinct ⊢
          exact (ih later (List.nodup_cons.mp ids).2).cons deal distinct
        · exact matchQueue_cut_within cut spent more crosses (Nat.lt_of_not_le all) ids

end MatchQueue

namespace Engine

/-- Two executions in a row that come to what a single one does. -/
structure InParts (o : Order) (e' : Engine) (x : Execution) (e₂ : Engine) (x₁ x₂ : Execution) :
    Prop where
  deals : merged ((x₁.fills ++ x₂.fills).map Fill.deal) = x.fills.map Fill.deal
  other : (e₂.book.ladder o.side.opposite).seen (.timeless id) =
    (e'.book.ladder o.side.opposite).seen (.timeless id)
  left : x₁.order.quantity + x₂.order.quantity = x.order.quantity
  volume : e₂.book.volumeAt o.side o.price = e'.book.volumeAt o.side o.price

variable {e e' e₁ e₂ : Engine} {o a b : Order} {m m₁ m₂ : Moment}

/-- The second part goes on where the first one has ended. -/
theorem Accepted.joined (h : e.Sound) (parts : o.Parts a b)
    (first : Accepted e a (e.matchOf a m₁) e₁) :
    (e.matchOf a m₁).Joined (e₁.matchOf b m₂) (e.matchOf o m) := by
  have cut : (e.takerOf o).Cut (e.takerOf a) (e₁.takerOf b) :=
    ⟨parts.side₁, parts.side₂, parts.price₁, parts.price₂, parts.quantity⟩
  have queue := first.queue
  unfold matchOf at queue ⊢
  rw [parts.side₁] at queue ⊢
  rw [parts.side₂, queue]
  exact matchQueue_cut cut (Nat.ne_of_gt parts.second) (h.book.side_ids _)

/-- Where an order is taken in, so are its parts. -/
theorem Accepted.accepts_second (h : e.Sound) (parts : o.Parts a b)
    (first : Accepted e a (e.matchOf a m₁) e₁) (accepted : e.rejection? o = none)
    (fresh : ∀ x ∈ e.book.orders, x.id ≠ b.id) : e₁.rejection? b = none := by
  obtain ⟨-, -, room⟩ := h.rejection?_none.mp accepted
  refine first.sound.rejection?_none.mpr ⟨parts.second, ?_, ?_⟩
  · intro x hx same
    rcases first.ids h x hx with mine | ⟨y, hy, kept⟩
    · exact parts.apart (mine.symm.trans same)
    · exact fresh y hy (kept.trans same)
  · have volume := first.volume
    have less : _ + (e.matchOf a m₁).taker.quantity = a.quantity := e.matchOf_quantity a m₁
    have whole := parts.quantity
    rw [parts.side₁, parts.price₁] at volume
    rw [parts.side₂, parts.price₂, volume]
    omega

theorem Sound.submit_parts (h : e.Sound) (parts : o.Parts a b) {x : Execution}
    (whole : e.submit o m = .ok (e', .ok x)) (fresh₁ : ∀ x ∈ e.book.orders, x.id ≠ a.id)
    (fresh₂ : ∀ x ∈ e.book.orders, x.id ≠ b.id) (m₁ m₂ : Moment) :
    ∃ e₁ x₁ e₂ x₂, e.submit a m₁ = .ok (e₁, .ok x₁) ∧ e₁.submit b m₂ = .ok (e₂, .ok x₂) ∧
      InParts o e' x e₂ x₁ x₂ := by
  obtain ⟨accepted, rfl, single⟩ := h.submit_ok whole
  obtain ⟨-, -, room⟩ := h.rejection?_none.mp accepted
  have sum := parts.quantity
  have accepts : e.rejection? a = none := by
    refine h.rejection?_none.mpr ⟨parts.first, fresh₁, ?_⟩
    rw [parts.side₁, parts.price₁]
    omega
  obtain ⟨e₁, submitted₁, first⟩ := h.submit accepts m₁
  obtain ⟨e₂, submitted₂, second⟩ :=
    first.sound.submit (first.accepts_second h parts accepted fresh₂) m₂
  have joined : (e.matchOf a m₁).Joined (e₁.matchOf b m₂) (e.matchOf o m) := first.joined h parts
  refine ⟨e₁, _, e₂, _, submitted₁, submitted₂, ?_⟩
  exact
    { deals := joined.deals
      other := by
        have queue := second.queue
        rw [parts.side₂] at queue
        refine (second.sound.book.ladders _).seen strictMono_id |>.unique
          ((single.sound.book.ladders _).seen strictMono_id) ?_
        rw [Ladder.orders_seen, Ladder.orders_seen, queue, single.queue, joined.rest]
      left := joined.left
      volume := by
        have volume := single.volume
        have volume₁ := first.volume
        have volume₂ := second.volume
        have left := joined.left
        rw [parts.side₁, parts.price₁] at volume₁
        rw [parts.side₂, parts.price₂] at volume₂
        rw [second.sound.book.volumeAt, single.sound.book.volumeAt, volume, volume₂, volume₁,
          ← left, Nat.add_left_comm, Nat.add_assoc] }

/-- After any calls an order that would be taken in may as well come in two parts of new ids, one
right after the other. Both are taken in, their deals and what is left of them are those of the
whole order, and so are the other side of the book and the level at the limit. The counters stay
below 2 to the 64th either way while the calls are modest. -/
theorem parts_come_to_whole (ss : List Step) (o a b : Order) (m m₁ m₂ : Moment)
    (parts : o.Parts a b) :
    ∃ e outs, new.run ss = .ok (e, outs) ∧ ∀ e' x, e.submit o m = .ok (e', .ok x) →
      e.book.contains a.id = false → e.book.contains b.id = false →
      ∃ e₁ x₁ e₂ x₂, e.submit a m₁ = .ok (e₁, .ok x₁) ∧ e₁.submit b m₂ = .ok (e₂, .ok x₂) ∧
        InParts o e' x e₂ x₁ x₂ ∧
        (Modest (ss ++ [.instruct (.submit a m₁), .instruct (.submit b m₂)]) →
          e'.InRange ∧ e₂.InRange) := by
  obtain ⟨e, outs, hok, ran⟩ := sound_new.run ss
  have sound := (ran.advances sound_new).sound
  refine ⟨e, outs, hok, fun e' x whole absent₁ absent₂ => ?_⟩
  obtain ⟨e₁, x₁, e₂, x₂, first, second, told⟩ := sound.submit_parts parts whole
    ((sound.book.absent a.id).mp absent₁) ((sound.book.absent b.id).mp absent₂) m₁ m₂
  refine ⟨e₁, x₁, e₂, x₂, first, second, told, fun modest => ⟨?_, ?_⟩⟩
  · refine submit_inRange hok whole (modest.fewer ?_ ?_) <;> simp [Step.numbers, Step.orders]
  · rw [List.append_cons] at modest
    exact submit_inRange (run_submit hok first) second modest

/-- A bid cut within its first maker: that maker trades twice. -/
theorem parts_come_to_whole_within_maker :
    let ask (name : String) (quantity : Nat) : Order := .new ⟨name⟩ .sell .one quantity .epoch
    let bid (name : String) (quantity : Nat) : Order := .new ⟨name⟩ .buy .one quantity .epoch
    let m : Moment := ⟨.epoch, .ofNat⟩
    (bid "whole" 9).Parts (bid "first" 2) (bid "second" 7) ∧
      ∃ e outs e' x e₁ x₁ e₂ x₂,
        new.run [.instruct (.submit (ask "x" 3) m), .instruct (.submit (ask "y" 4) m)] =
          .ok (e, outs) ∧
        e.submit (bid "whole" 9) m = .ok (e', .ok x) ∧ e.book.contains ⟨"first"⟩ = false ∧
        e.book.contains ⟨"second"⟩ = false ∧ e.submit (bid "first" 2) m = .ok (e₁, .ok x₁) ∧
        e₁.submit (bid "second" 7) m = .ok (e₂, .ok x₂) ∧ InParts (bid "whole" 9) e' x e₂ x₁ x₂ ∧
        e'.InRange ∧ e₂.InRange ∧ (x₁.fills ++ x₂.fills).map (·.trade.quantity) = [2, 1, 4] := by
  intro ask bid m
  have parts : (bid "whole" 9).Parts (bid "first" 2) (bid "second" 7) :=
    ⟨⟨rfl, rfl, rfl, rfl, rfl⟩, by decide, by decide, by decide⟩
  obtain ⟨e, outs, hok, both⟩ := parts_come_to_whole
    [.instruct (.submit (ask "x" 3) m), .instruct (.submit (ask "y" 4) m)] _ _ _ m m m parts
  cases hok
  obtain ⟨e₁, x₁, e₂, x₂, submitted₁, submitted₂, told, range⟩ :=
    both _ _ rfl (by decide) (by decide)
  obtain ⟨range₁, range₂⟩ := range (by decide)
  cases submitted₁
  cases submitted₂
  exact ⟨parts, _, _, _, _, _, _, _, _, rfl, rfl, by decide, by decide, rfl, rfl, told, range₁,
    range₂, rfl⟩

end Engine
end Bourse
