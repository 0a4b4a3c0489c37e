import Bourse.Proofs.Engine.Priority
import Bourse.Proofs.Engine.Executions
import Bourse.Proofs.Engine.Uncrossed

/-! Headroom. Before an order is matched its level is asked to hold all of it, though less may be
left in the end. Nothing is lost by that: where the sides do not meet, an order that trades finds
no level at its own limit. -/
namespace Bourse

/-- An order with a better price than all of a ladder is a level in front of it. -/
theorem Ladder.Sound.front {side : Side} {l l' : Ladder} {o : Order} (h' : l'.Sound side)
    (h : l.Sound side) (perm : l'.orders.Perm (o :: l.orders))
    (leads : ∀ y ∈ l.orders, side.better o.price y.price = true) :
    l'.levels = ⟨o.price, [o], o.quantity⟩ :: l.levels := by
  obtain ⟨own, left⟩ := h'.own o (perm.mem_iff.mpr List.mem_cons_self)
  have bound := h'.restingAt_le o.price
  rw [restingAt_perm perm, restingAt_cons] at bound
  obtain ⟨-, single⟩ := Level.push_empty own left (Nat.le_trans (Nat.le_add_right _ _) bound)
  have sound : Ladder.Sound side ⟨side, ⟨o.price, [o], o.quantity⟩ :: l.levels⟩ :=
    ⟨rfl, .cons single (List.cons_ne_nil _ _) h.ranked leads⟩
  rw [h'.unique sound perm]

namespace Book

variable {b : Book} {o : Order}

/-- A new live order is refused for want of room or not at all. -/
theorem Sound.refusal?_fresh (h : b.Sound) (left : 0 < o.quantity)
    (live : o.status.isTerminal = false) (fresh : ∀ x ∈ b.orders, x.id ≠ o.id) :
    b.refusal? o = if restingAt o.price (b.ladder o.side).orders + o.quantity ≤ Text.maxCount then
      none else some (.overflow o.id o.price) := by
  have new : b.contains o.id = false := (h.absent o.id).mpr fresh
  have hold := (h.ladders o.side).canHold o.price o.quantity
  simp [refusal?, Nat.ne_of_gt left, live, new, hold]

end Book

namespace Engine

/-- What becomes of an order, beside what would have become of it had it been matched first. -/
structure Foreseen (e : Engine) (o : Order) (matched : Engine) (taker : Order) (fills : List Fill)
    (e' : Engine) (r : Except Rejection Execution) : Prop where
  /-- It is turned away just if the rest of it would overflow its level. -/
  overflow : r = .error (.overflow o.id o.price) ↔ 0 < taker.quantity ∧
    Text.maxCount < (matched.book.volumeAt o.side o.price).getD 0 + taker.quantity
  /-- The book would then have refused that rest. -/
  refused : r = .error (.overflow o.id o.price) ↔
    ∃ e₂, matched.rest taker fills = .ok (e₂, .error (.refused (.overflow o.id o.price)))
  traded : fills ≠ [] → ∃ x, r = .ok x ∧ x.fills = fills
  /-- What is left of an order that has traded makes a new level in front of all others. -/
  alone : ∀ x, r = .ok x → x.fills ≠ [] → 0 < x.order.quantity →
    e.book.volumeAt o.side o.price = none ∧
      (e'.book.ladder o.side).levels =
        ⟨o.price, [x.order], x.order.quantity⟩ :: (e.book.ladder o.side).levels

variable {e e' : Engine} {o : Order} {m : Moment}

/-- An order that trades in a book whose sides do not meet has a better limit than all of its
side. -/
theorem Sound.leads (h : e.Sound) (separate : Separate e.book.orders)
    (traded : (e.matchOf o m).fills ≠ []) :
    ∀ y ∈ (e.book.ladder o.side).orders, o.side.better o.price y.price = true := by
  intro y hy
  obtain ⟨f, fs, fills⟩ := List.exists_cons_of_ne_nil traded
  obtain ⟨z, rest, queue, -, meets, -⟩ := matchQueue_filled fills
  have here : z ∈ (e.book.ladder o.side.opposite).orders := queue ▸ List.mem_cons_self
  have apart := (separate_iff o.side _).mp separate y
    (Book.mem_of_ladder hy) z (Book.mem_of_ladder here) (h.book.own hy) (h.book.own here)
  exact Side.better_of_crosses meets apart

theorem restingAt_of_leads {side : Side} {price : Price} {os : List Order}
    (leads : ∀ y ∈ os, side.better price y.price = true) : restingAt price os = 0 := by
  have none : os.filter (·.price == price) = [] := by
    refine List.filter_eq_nil_iff.mpr fun y hy same => ?_
    have better := leads y hy
    rw [beq_iff_eq.mp same, Side.better_irrefl] at better
    cases better
  rw [restingAt, none, sumOf_nil]

theorem matchOf_untraded (none : (e.matchOf o m).fills = []) :
    (e.matchOf o m).taker.quantity = o.quantity := by
  have sum := e.matchOf_quantity o m
  rw [none, sumOf_nil, Nat.zero_add] at sum
  exact sum

/-- All of an order is too much for its level just if what is left of it after matching is. -/
theorem Sound.overflows_iff (h : e.Sound) (separate : Separate e.book.orders)
    (left : 0 < o.quantity) (count : o.quantity ≤ Text.maxCount) :
    Text.maxCount < restingAt o.price (e.book.ladder o.side).orders + o.quantity ↔
      0 < (e.matchOf o m).taker.quantity ∧ Text.maxCount <
        restingAt o.price (e.book.ladder o.side).orders + (e.matchOf o m).taker.quantity := by
  constructor
  · intro excess
    by_cases none : (e.matchOf o m).fills = []
    · rw [matchOf_untraded none]
      exact ⟨left, excess⟩
    · rw [restingAt_of_leads (h.leads separate none)] at excess
      omega
  · rintro ⟨-, excess⟩
    have sum : _ + (e.matchOf o m).taker.quantity = o.quantity := e.matchOf_quantity o m
    omega

theorem rest_refused_iff {t : Order} {fills : List Fill} {r : Refusal} (left : t.quantity ≠ 0) :
    (∃ e₃, e.rest t fills = .ok (e₃, .error (.refused r))) ↔
      e.book.refusal? t.settled = some r := by
  have live : { t with status := t.liveStatus } = t.settled := by simp [Order.settled, left]
  simp only [Engine.rest, left, if_false, live, Book.add]
  cases e.book.refusal? t.settled with
  | some reason => simp
  | none => cases e.book.place t.settled <;> simp [bind, Except.bind]

/-- After matching, the book refuses the rest of a new order just if it is too much for its
level. -/
theorem SweptTo.refuses_iff (h : e.Sound) (fresh : ∀ x ∈ e.book.orders, x.id ≠ o.id)
    {e₂ : Engine}
    (s : SweptTo { e with nextSequence := e.nextSequence + 1 } o.side (e.matchOf o m) e₂) :
    (∃ e₃, e₂.rest (e.matchOf o m).taker (e.matchOf o m).fills =
        .ok (e₃, .error (.refused (.overflow o.id o.price)))) ↔
      0 < (e.matchOf o m).taker.quantity ∧ Text.maxCount <
        restingAt o.price (e.book.ladder o.side).orders + (e.matchOf o m).taker.quantity := by
  by_cases spent : (e.matchOf o m).taker.quantity = 0
  · simp [Engine.rest, spent]
  · obtain ⟨quantity, updatedAt, status, -, settled⟩ := e.matchOf_settled o m
    have own : e₂.book.ladder o.side = e.book.ladder o.side := s.own
    have id : (e.matchOf o m).taker.settled.id = o.id := by rw [settled]
    have side : (e.matchOf o m).taker.settled.side = o.side := by rw [settled]
    have price : (e.matchOf o m).taker.settled.price = o.price := by rw [settled]
    have refusal := s.sound.book.refusal?_fresh (o := (e.matchOf o m).taker.settled)
      (Nat.pos_of_ne_zero spent) ((Order.settled_live _).mpr spent) (id ▸ s.fresh h fresh)
    rw [rest_refused_iff spent, refusal, side, own, price, id]
    split
    · rename_i room
      exact iff_of_false (by simp) fun excess => Nat.not_lt.mpr room excess.2
    · rename_i excess
      exact iff_of_true rfl ⟨Nat.pos_of_ne_zero spent, Nat.lt_of_not_le excess⟩

/-- What is left of an order that leads its side is a level in front of the others. -/
theorem Accepted.front (a : Accepted e o (e.matchOf o m) e') (h : e.Sound)
    (leads : ∀ y ∈ (e.book.ladder o.side).orders, o.side.better o.price y.price = true)
    (left : (e.matchOf o m).taker.settled.quantity ≠ 0) :
    (e'.book.ladder o.side).levels =
      ⟨o.price, [(e.matchOf o m).taker.settled], (e.matchOf o m).taker.settled.quantity⟩ ::
        (e.book.ladder o.side).levels := by
  obtain ⟨_, _, _, -, settled⟩ := e.matchOf_settled o m
  have price : (e.matchOf o m).taker.settled.price = o.price := by rw [settled]
  have own := a.own
  rw [Order.resting, if_neg left] at own
  rw [← price] at leads ⊢
  exact (a.sound.book.ladders o.side).front (h.book.ladders o.side) own leads

theorem Sound.rejection?_fresh (h : e.Sound) (left : 0 < o.quantity)
    (fresh : ∀ x ∈ e.book.orders, x.id ≠ o.id) :
    e.rejection? o = if restingAt o.price (e.book.ladder o.side).orders + o.quantity ≤
      Text.maxCount then none else some (.overflow o.id o.price) := by
  have new : e.book.orders.any (·.id == o.id) = false := by simpa using fresh
  rw [h.rejection?_eq, if_neg (Nat.ne_of_gt left), new]
  rfl

theorem Sound.foreseen (h : e.Sound) (separate : Separate e.book.orders)
    (left : 0 < o.quantity) (count : o.quantity ≤ Text.maxCount)
    (fresh : ∀ x ∈ e.book.orders, x.id ≠ o.id) {e₂ : Engine}
    (s : SweptTo { e with nextSequence := e.nextSequence + 1 } o.side (e.matchOf o m) e₂) :
    ∃ e' r, e.submit o m = .ok (e', r) ∧
      Foreseen e o e₂ (e.matchOf o m).taker (e.matchOf o m).fills e' r := by
  have rejection := h.rejection?_fresh left fresh
  have excess := h.overflows_iff (m := m) separate left count
  have refuses := s.refuses_iff h fresh
  have volume : (e₂.book.volumeAt o.side o.price).getD 0 =
      restingAt o.price (e.book.ladder o.side).orders := by
    rw [s.sound.book.volume, s.own]
  have alone (traded : (e.matchOf o m).fills ≠ []) :
      restingAt o.price (e.book.ladder o.side).orders = 0 :=
    restingAt_of_leads (h.leads separate traded)
  by_cases room : restingAt o.price (e.book.ladder o.side).orders + o.quantity ≤ Text.maxCount
  · rw [if_pos room] at rejection
    obtain ⟨e', submitted, a⟩ := h.submit rejection m
    have within := mt excess.mpr (Nat.not_lt.mpr room)
    refine ⟨e', _, submitted, ?_⟩
    exact
      { overflow := iff_of_false nofun (volume ▸ within)
        refused := iff_of_false nofun (mt refuses.mp within)
        traded := fun _ => ⟨_, rfl, rfl⟩
        alone := by
          rintro _ ⟨⟩ traded left
          refine ⟨?_, a.front h (h.leads separate traded) (Nat.ne_of_gt left)⟩
          rw [h.book.volumeAt, if_pos (alone traded)] }
  · rw [if_neg room] at rejection
    have past := excess.mp (Nat.lt_of_not_le room)
    refine ⟨e, _, submit_rejected rejection, ?_⟩
    exact
      { overflow := iff_of_true rfl (volume ▸ past)
        refused := iff_of_true rfl (refuses.mpr past)
        traded := fun traded => absurd (by rw [alone traded]; omega) room
        alone := nofun }

/-- After submissions and cancellations of any kind and number, an order of a new id, and of a
quantity that a count can hold, is turned away for want of room just if it would find none for what
is left of it once it has been matched. An order that trades is not, and what is left of it rests
alone in front of its side. -/
theorem room_is_foreseen (is : List Instruction) (o : Order) (m : Moment) (left : 0 < o.quantity)
    (count : o.quantity ≤ Text.maxCount) :
    ∃ e outs matched taker fills, new.run (is.map .instruct) = .ok (e, outs) ∧
      e.matchFirst o m = .ok (matched, taker, fills) ∧
      (e.book.contains o.id = false →
        ∃ e' r, e.submit o m = .ok (e', r) ∧ Foreseen e o matched taker fills e' r) := by
  obtain ⟨e, outs, hok, ran⟩ := sound_new.run (is.map .instruct)
  have sound := (ran.advances sound_new).sound
  have separate : Separate e.book.orders := ran.separate sound_new nofun
  obtain ⟨e₂, matched, s⟩ := sound.matchFirst o m
  refine ⟨e, outs, e₂, _, _, hok, matched, fun absent => ?_⟩
  exact sound.foreseen separate left count ((sound.book.absent o.id).mp absent) s

/-- A bid as large as can be is the first of its side, trades, and what is left of it rests. -/
theorem room_is_foreseen_for_largest_bid :
    let ask : Order := .new ⟨"ask"⟩ .sell .one 2 .epoch
    let bid : Order := .new ⟨"bid"⟩ .buy .one Text.maxCount .epoch
    let m : Moment := ⟨.epoch, .ofNat⟩
    0 < bid.quantity ∧ bid.quantity ≤ Text.maxCount ∧
      ∃ e outs matched taker fills e' r, new.run [.instruct (.submit ask m)] = .ok (e, outs) ∧
        e.matchFirst bid m = .ok (matched, taker, fills) ∧ e.book.contains bid.id = false ∧
        fills.map (·.trade.quantity) = [2] ∧ taker.quantity = Text.maxCount - 2 ∧
        e.submit bid m = .ok (e', r) ∧ Foreseen e bid matched taker fills e' r := by
  intro ask bid m
  have left : 0 < bid.quantity := by decide
  have count : bid.quantity ≤ Text.maxCount := Nat.le_refl _
  obtain ⟨e, outs, matched, taker, fills, hok, first, foreseen⟩ :=
    room_is_foreseen [.submit ask m] bid m left count
  cases hok
  cases first
  obtain ⟨e', r, submitted, told⟩ := foreseen rfl
  exact ⟨left, count, _, _, _, _, _, e', r, rfl, rfl, rfl, rfl, rfl, submitted, told⟩

end Engine
end Bourse
