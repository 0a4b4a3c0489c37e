import Bourse.Proofs.Engine.Admission
import Bourse.Proofs.Engine.Footprint
import Bourse.Proofs.Market.Turns

/-! Restoring. Of recorded orders those come back that find their id free and room on their level
when it is their turn, in the order of their turns. Each keeps its sequence, or gets the lowest one
above it that is left; it is set behind all that rest, and nothing trades. -/
namespace Bourse

namespace Order

/-- Something is left of the order, and it is not over. -/
def canRest (o : Order) : Bool := o.quantity != 0 && !o.status.isTerminal

/-- No resting order has the id of this one, and there is room for it on its level. -/
def FindsPlace (resting : List Order) (o : Order) : Prop :=
  (∀ x ∈ resting, x.id ≠ o.id) ∧ o.volume resting + o.quantity ≤ Text.maxCount

instance (resting : List Order) (o : Order) : Decidable (o.FindsPlace resting) :=
  inferInstanceAs (Decidable (_ ∧ _))

/-- The order without what its return may change. -/
def bare (o : Order) : Order := { o with sequence := 0, status := .opened }

end Order

/-- The recorded orders that can rest, in the order in which they are gone through. -/
def returning (os : List Order) : List Order :=
  (os.filter Order.canRest).mergeSort Order.comesBefore

/-- Those of some orders, gone through one after the other, that find a place when it is their
turn. -/
def admitted (resting : List Order) : List Order → List Order
  | [] => []
  | o :: os =>
    if o.FindsPlace resting then o :: admitted (o :: resting) os else admitted resting os

/-- Orders as they come back, one after the other. -/
def renumbered (next : Nat) : List Order → List Order
  | [] => []
  | o :: os =>
    { o with sequence := max o.sequence next, status := o.liveStatus } ::
      renumbered (max o.sequence next + 1) os

section Admitted

variable {o : Order} {os os' resting : List Order}

theorem Order.canRest_iff : o.canRest = true ↔ o.quantity ≠ 0 ∧ o.status.isTerminal = false := by
  rw [canRest, Bool.and_eq_true, bne_iff_ne, Bool.not_eq_true']

theorem Order.volume_bare (o : Order) (os : List Order) :
    o.volume (os.map bare) = o.volume os := by
  rw [volume, restingAt, List.filter_map, List.filter_map, sumOf_map]
  rfl

theorem Order.findsPlace_bare : o.FindsPlace (os.map bare) ↔ o.FindsPlace os := by
  rw [FindsPlace, FindsPlace, volume_bare, List.forall_mem_map]
  rfl

theorem Order.findsPlace_perm (perm : os.Perm os') : o.FindsPlace os ↔ o.FindsPlace os' := by
  simp only [FindsPlace, perm.mem_iff, volume, restingAt_perm (perm.filter _)]

/-- Whether an order finds a place depends neither on the sequences nor on the statuses of those at
rest. -/
theorem Order.findsPlace_alike (alike : (os.map bare).Perm (os'.map bare)) :
    o.FindsPlace os ↔ o.FindsPlace os' :=
  findsPlace_bare.symm.trans ((findsPlace_perm alike).trans findsPlace_bare)

theorem renumbered_sequences (next : Nat) (os : List Order) :
    (renumbered next os).map (·.sequence) = lowest next (os.map (·.sequence)) := by
  induction os generalizing next with
  | nil => rfl
  | cons o os ih => rw [renumbered, List.map_cons, ih, List.map_cons, lowest]

theorem renumbered_same (next : Nat) (os : List Order) :
    List.Forall₂ (fun o p => p = { o with
      sequence := p.sequence
      status := if o.quantity < o.size then .partlyFilled else .opened }) os
      (renumbered next os) := by
  induction os generalizing next with
  | nil => exact .nil
  | cons o os ih => exact .cons rfl (ih _)

end Admitted

namespace Engine

variable {e e₁ e' : Engine} {os placed resting : List Order} {o p : Order} {b : Book}

theorem restored_self {o : Order} (live : o.status = o.liveStatus)
    (free : e.nextSequence ≤ o.sequence) : e.restored o = o := by
  unfold restored
  rw [← live, Nat.max_eq_left free]

theorem Sound.placeable_of_perm (h : e.Sound) (sound : b.Sound) {o : Order}
    (perm : b.orders.Perm (o :: os ++ e.book.orders)) (live : o.status.isTerminal = false) :
    e.book.Placeable o where
  left := sound.left (perm.mem_iff.mpr List.mem_cons_self)
  live := live
  fresh x hx same := by
    have ids := (perm.map (·.id)).nodup_iff.mp sound.ids
    refine (List.nodup_cons.mp ids).1 (List.mem_map.mpr ⟨x, ?_, same⟩)
    exact List.mem_append_right _ hx
  room := by
    have most := (sound.ladders o.side).restingAt_le o.price
    have side := (sound.side_perm o.side).symm.trans (perm.filter _)
    rw [List.cons_append, List.filter_cons_of_pos (by simp), List.filter_append] at side
    rw [restingAt_perm side, restingAt_cons, restingAt_append,
      restingAt_perm (h.book.side_perm o.side)] at most
    omega

theorem Sound.placeable_iff (h : e.Sound) (alike : (e.book.orders.map Order.bare).Perm
    (resting.map Order.bare)) (can : o.canRest = true) :
    e.book.Placeable (e.restored o) ↔ o.FindsPlace resting := by
  have volume : restingAt o.price (e.book.ladder o.side).orders = o.volume e.book.orders :=
    h.volume (.refl _)
  rw [← Order.findsPlace_alike alike]
  constructor
  · intro p
    exact ⟨p.fresh, volume ▸ p.room⟩
  · rintro ⟨fresh, room⟩
    exact ⟨Nat.pos_of_ne_zero (Order.canRest_iff.mp can).1, Order.liveStatus_isTerminal o, fresh,
      volume ▸ room⟩

/-- What comes back are the orders that find a place in their turn, renumbered. -/
theorem Returned.eq (r : Returned e os placed e') (h : e.Sound)
    (can : ∀ o ∈ os, o.canRest = true)
    (alike : (e.book.orders.map Order.bare).Perm (resting.map Order.bare)) :
    placed = renumbered e.nextSequence (admitted resting os) := by
  induction r generalizing resting with
  | nil => rfl
  | @skipped e e' o os placed out _ ih =>
    have mine := can o List.mem_cons_self
    have live := (Order.canRest_iff.mp mine).2
    have stuck : ¬ o.FindsPlace resting :=
      mt (h.placeable_iff alike mine).mpr (out.resolve_left (by simp [live]))
    rw [admitted, if_neg stuck]
    exact ih h (fun x hx => can x (List.mem_cons_of_mem _ hx)) alike
  | @placed e e₁ e' o os placed _ placeable one _ ih =>
    have fits := (h.placeable_iff alike (can o List.mem_cons_self)).mp placeable
    have more : (e₁.book.orders.map Order.bare).Perm ((o :: resting).map Order.bare) :=
      (one.orders.map _).trans (alike.cons _)
    have rest := ih one.sound (fun x hx => can x (List.mem_cons_of_mem _ hx)) more
    rw [admitted, if_pos fits, renumbered, rest, one.nextSequence]
    rfl

theorem Returned.counters (r : Returned e os placed e') :
    e'.nextTrade = e.nextTrade ∧
      e'.nextSequence = (placed.getLast?.map (·.sequence + 1)).getD e.nextSequence := by
  induction r with
  | nil => exact ⟨rfl, rfl⟩
  | skipped _ _ ih => exact ih
  | @placed e e₁ e' o os placed _ _ one _ ih =>
    obtain ⟨trade, sequence⟩ := ih
    refine ⟨trade.trans one.nextTrade, ?_⟩
    rw [sequence, one.nextSequence, List.getLast?_cons]
    cases placed.getLast? <;> rfl

/-- Orders of a sound book return as they were, if they come in the order of their sequences and
none of these is taken yet. -/
theorem Returned.unchanged {more : List Order} (r : Returned e os placed e') (h : e.Sound)
    (sound : b.Sound) (perm : b.orders.Perm (os ++ more ++ e.book.orders))
    (live : ∀ o ∈ os, o.status = o.liveStatus)
    (inTurn : os.Pairwise fun a b => a.sequence < b.sequence)
    (free : ∀ o ∈ os, e.nextSequence ≤ o.sequence) : placed = os := by
  -- The book is made up of what is still to return, of what has returned, and of some others.
  induction r with
  | nil => rfl
  | @skipped e e' o os placed out _ _ =>
    have same := restored_self (live o List.mem_cons_self) (free o List.mem_cons_self)
    have alive : o.status.isTerminal = false :=
      live o List.mem_cons_self ▸ Order.liveStatus_isTerminal o
    rcases out with ended | stuck
    · simp [alive] at ended
    · rw [same] at stuck
      exact absurd (h.placeable_of_perm sound perm alive) stuck
  | @placed e e₁ e' o os placed _ _ one _ ih =>
    have same := restored_self (live o List.mem_cons_self) (free o List.mem_cons_self)
    have later := List.pairwise_cons.mp inTurn
    have next : e₁.nextSequence = o.sequence + 1 := by rw [one.nextSequence, same]
    have rest : b.orders.Perm (os ++ more ++ e₁.book.orders) := by
      apply perm.trans
      have orders := one.orders
      rw [same] at orders
      exact List.perm_middle.symm.trans (orders.symm.append_left (os ++ more))
    rw [same, ih one.sound rest (fun x hx => live x (List.mem_cons_of_mem _ hx)) later.2
      (fun x hx => next ▸ later.1 x hx)]

theorem Returned.all (r : Returned e os placed e') (h : e.Sound) (sound : b.Sound)
    (perm : b.orders.Perm (os ++ e.book.orders)) (live : ∀ o ∈ os, o.status = o.liveStatus)
    (inTurn : os.Pairwise fun a b => a.sequence < b.sequence)
    (free : ∀ o ∈ os, e.nextSequence ≤ o.sequence) :
    placed = os ∧ b.orders.Perm e'.book.orders ∧ e'.nextTrade = e.nextTrade ∧
      ∀ n, e.nextSequence ≤ n → (∀ o ∈ os, o.sequence < n) → e'.nextSequence ≤ n := by
  have whole : b.orders.Perm (os ++ [] ++ e.book.orders) := by rwa [List.append_nil]
  have same : placed = os := r.unchanged h sound whole live inTurn free
  obtain ⟨trade, next⟩ := r.counters
  have orders := r.orders
  rw [same] at next orders
  refine ⟨same, perm.trans orders.symm, trade, fun n hn less => ?_⟩
  rw [next]
  cases last : os.getLast? with
  | none => exact hn
  | some o => exact less o (List.mem_of_getLast? last)

/-- What comes back queues behind what rests. -/
theorem Returned.queue (r : Returned e os placed e') (h : e.Sound) (side : Side) (price : Price) :
    e'.book.ordersAt side price = e.book.ordersAt side price ++
      placed.filter fun p => p.side == side && p.price == price := by
  have goes := r.advances h
  have perm := r.orders.filter (·.side == side)
  rw [List.filter_append] at perm
  have own : (e'.book.ladder side).orders.Perm
      (placed.filter (·.side == side) ++ (e.book.ladder side).orders) :=
    (goes.sound.book.side_perm side).symm.trans
      (perm.trans ((h.book.side_perm side).append_left _))
  have level : (placed.filter (·.side == side)).filter (·.price == price) =
      placed.filter fun p => p.side == side && p.price == price := by
    rw [List.filter_filter]
    exact List.filter_congr fun p _ => Bool.and_comm _ _
  rw [goes.sound.book.ordersAt, h.book.ordersAt, ← level]
  refine queue_behind own (goes.sound.book.ladders side).pairwise (h.book.ladders side).pairwise
    (goes.inTurn.filter _) (fun x hx y hy _ => ?_) price
  exact Nat.lt_of_lt_of_le (h.early hx) (goes.fresh y (List.mem_filter.mp hy).1).1

theorem Returned.restable (r : Returned e os placed e') :
    ∀ p ∈ placed, p.canRest = true ∧ p.status = p.liveStatus := by
  induction r with
  | nil => exact nofun
  | skipped _ _ ih => exact ih
  | @placed e e₁ e' o os placed _ placeable _ _ ih =>
    intro p hp
    rcases List.mem_cons.mp hp with rfl | hp
    · exact ⟨Order.canRest_iff.mpr ⟨Nat.ne_of_gt placeable.left, placeable.live⟩, rfl⟩
    · exact ih p hp

/-- Orders that cannot rest are passed over wherever they stand. -/
theorem restoreAll_filter (e : Engine) (os : List Order) :
    e.restoreAll (os.filter Order.canRest) = e.restoreAll os := by
  induction os generalizing e with
  | nil => rfl
  | cons o os ih =>
    cases can : o.canRest with
    | true => simp only [List.filter_cons_of_pos can, restoreAll, ih]
    | false =>
      have passed : e.restoreOne o = .ok (e, none) := by
        rw [Order.canRest, Bool.and_eq_false_iff, bne_eq_false_iff_eq, Bool.not_eq_false'] at can
        rcases can with none | ended
        · simp [restoreOne, none]
        · simp [restoreOne, ended]
      rw [List.filter_cons_of_neg (by simp [can]), ih, restoreAll, passed]
      simp only [ok_bind, Option.toList_none, List.nil_append]
      cases e.restoreAll os <;> rfl

theorem restore_eq (e : Engine) (os : List Order) :
    e.restore os = e.restoreAll (returning os) := by
  rw [returning, ← filter_mergeSort Order.comesBefore_trans Order.comesBefore_total,
    restoreAll_filter]
  rfl

theorem restoreOne_eq (e : Engine) (can : o.canRest = true) :
    e.restoreOne o = (do match ← e.book.add (e.restored o) with
      | .error _ => return (e, none)
      | .ok book =>
        return ({ e with book, nextSequence := (e.restored o).sequence + 1 },
          some (e.restored o))) :=
  if_neg (by simp [Order.canRest_iff.mp can])

/-- As an order comes back, it comes back again. -/
theorem restoreOne_restored (e : Engine) (can : o.canRest = true) :
    e.restoreOne (e.restored o) = e.restoreOne o := by
  have can' : (e.restored o).canRest = true :=
    Order.canRest_iff.mpr ⟨(Order.canRest_iff.mp can).1, Order.liveStatus_isTerminal o⟩
  have twice : e.restored (e.restored o) = e.restored o :=
    restored_self rfl (Nat.le_max_right _ _)
  rw [restoreOne_eq e can', restoreOne_eq e can, twice]

theorem Sound.restoreAll_again (h : e.Sound) (can : ∀ o ∈ os, o.canRest = true)
    (ok : e.restoreAll os = .ok (e', placed)) : e.restoreAll placed = .ok (e', placed) := by
  induction os generalizing e placed with
  | nil =>
    cases ok
    rfl
  | cons o os ih =>
    have mine := can o List.mem_cons_self
    have others := fun x hx => can x (List.mem_cons_of_mem o hx)
    by_cases fits : e.book.Placeable (e.restored o)
    · obtain ⟨e₁, first, one⟩ := h.restoreOne_placed (Order.canRest_iff.mp mine).2 fits
      obtain ⟨e₂, rest, later, -⟩ := one.sound.restoreAll os
      have whole : e.restoreAll (o :: os) = .ok (e₂, e.restored o :: rest) := by
        simp [Engine.restoreAll, first, later]
      cases whole.symm.trans ok
      simp [Engine.restoreAll, restoreOne_restored e mine, first, ih one.sound others later]
    · obtain ⟨e₂, rest, later, -⟩ := h.restoreAll os
      have whole : e.restoreAll (o :: os) = .ok (e₂, rest) := by
        simp [Engine.restoreAll, h.restoreOne_skipped (.inr fits), later]
      cases whole.symm.trans ok
      exact ih h others later

/-- Orders whose ids rest do not come back. -/
theorem Sound.restoreAll_resting (h : e.Sound)
    (here : ∀ o ∈ os, ∃ x ∈ e.book.orders, x.id = o.id) : e.restoreAll os = .ok (e, []) := by
  induction os with
  | nil => rfl
  | cons o os ih =>
    obtain ⟨x, hx, same⟩ := here o List.mem_cons_self
    have stuck : ¬ e.book.Placeable (e.restored o) := fun fits => fits.fresh x hx same
    have later := ih fun y hy => here y (List.mem_cons_of_mem _ hy)
    simp [Engine.restoreAll, h.restoreOne_skipped (.inr stuck), later]

/-- A new engine takes back all that another one has. -/
theorem Returned.anew (r : Returned e os placed e') (h : e.Sound) :
    ∃ e'', new.restoreAll placed = .ok (e'', placed) := by
  obtain ⟨e'', placed', ok, r'⟩ := sound_new.restoreAll placed
  have goes := r.advances h
  have whole : e'.book.orders.Perm (placed ++ e.book.orders ++ new.book.orders) := by
    rw [show new.book.orders = [] from rfl, List.append_nil]
    exact r.orders
  have all : placed' = placed := r'.unchanged sound_new goes.sound.book whole
    (fun p hp => (r.restable p hp).2) goes.inTurn fun p hp =>
      Nat.le_trans h.started (goes.fresh p hp).1
  exact ⟨e'', all ▸ ok⟩

/-- What has come back, and how the engine goes on. -/
structure CameBack (e : Engine) (os placed : List Order) (e' : Engine) : Prop where
  same : List.Forall₂ (fun o p => p = { o with
    sequence := p.sequence
    status := if o.quantity < o.size then .partlyFilled else .opened })
    (admitted e.book.orders (returning os)) placed
  numbers : Numbering e.nextSequence
    ((admitted e.book.orders (returning os)).map (·.sequence)) (placed.map (·.sequence))
  /-- No other numbers in turn are lower anywhere. -/
  least : ∀ ns, Numbering e.nextSequence
    ((admitted e.book.orders (returning os)).map (·.sequence)) ns →
      List.Forall₂ (· ≤ ·) (placed.map (·.sequence)) ns
  queues : ∀ side price, e'.book.ordersAt side price = e.book.ordersAt side price ++
    placed.filter fun p => p.side == side && p.price == price
  nextTrade : e'.nextTrade = e.nextTrade
  nextSequence : e'.nextSequence = (placed.getLast?.map (·.sequence + 1)).getD e.nextSequence
  /-- Where turns tell the records apart, their order does not matter. -/
  anyOrder : ((os.filter Order.canRest).map Order.turn).Nodup →
    ∀ os' : List Order, os'.Perm os → e.restore os' = .ok (e', placed)
  again : e.restore placed = .ok (e', placed)
  anew : ∃ e'', new.restore placed = .ok (e'', placed)
  nothing : e'.restore placed = .ok (e', [])

theorem mem_returning : o ∈ returning os ↔ o ∈ os ∧ o.canRest = true := by
  rw [returning, List.mem_mergeSort, List.mem_filter]

/-- Orders that have come back are gone through as they are. -/
theorem Returned.returning (r : Returned e os placed e') (h : e.Sound) :
    Bourse.returning placed = placed := by
  rw [Bourse.returning, List.filter_eq_self.mpr fun p hp => (r.restable p hp).1]
  refine List.mergeSort_of_pairwise ((r.advances h).inTurn.imp fun less => ?_)
  exact (Order.comesBefore_iff _ _).mpr (.inl less)

theorem Sound.cameBack (h : e.Sound) (os : List Order) :
    ∃ e' placed, e.restore os = .ok (e', placed) ∧ CameBack e os placed e' := by
  obtain ⟨e', placed, ok, r⟩ := h.restoreAll (returning os)
  have goes := r.advances h
  have can : ∀ o ∈ returning os, o.canRest = true := fun o ho => (mem_returning.mp ho).2
  have eq : placed = renumbered e.nextSequence (admitted e.book.orders (returning os)) :=
    r.eq h can (.refl _)
  have numbers : placed.map (·.sequence) = lowest e.nextSequence
      ((admitted e.book.orders (returning os)).map (·.sequence)) := by
    rw [eq, renumbered_sequences]
  have sorted := r.returning h
  refine ⟨e', placed, (restore_eq e os).trans ok, ?_⟩
  exact
    { same := eq ▸ renumbered_same _ _
      numbers := numbers ▸ numbering_lowest _ _
      least := fun ns numbering => numbers ▸ numbering.lowest_le
      queues := r.queue h
      nextTrade := r.counters.1
      nextSequence := r.counters.2
      anyOrder := by
        intro turns os' perm
        have gone : returning os' = returning os := Order.mergeSort_perm (perm.filter _) turns
        rw [restore_eq, gone, ok]
      again := by
        rw [restore_eq, sorted]
        exact h.restoreAll_again can ok
      anew := by
        simp only [restore_eq, sorted]
        exact r.anew h
      nothing := by
        rw [restore_eq, sorted]
        refine goes.sound.restoreAll_resting fun p hp => ?_
        exact ⟨p, r.orders.mem_iff.mpr (List.mem_append_left _ hp), rfl⟩ }

/-- After any calls, records come back as far as they find room, in their turns and with the lowest
numbers there are, behind whatever rests, and what has come back once does so again as it is. -/
theorem records_come_back (ss : List Step) (os : List Order) :
    ∃ e outs e' placed, new.run ss = .ok (e, outs) ∧ e.restore os = .ok (e', placed) ∧
      CameBack e os placed e' := by
  obtain ⟨e, outs, hok, ran⟩ := sound_new.run ss
  obtain ⟨e', placed, restored, back⟩ := (ran.advances sound_new).sound.cameBack os
  exact ⟨e, outs, e', placed, hok, restored, back⟩

end Engine
end Bourse
