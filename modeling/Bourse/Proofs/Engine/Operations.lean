import Bourse.Proofs.Engine.Matching

/-! What submission, cancellation and restoring do to the orders of a sound engine. None of them
faults, and each keeps the engine sound. -/
namespace Bourse

/-- An order as its submission ends: with nothing left it is filled, else it is live. -/
def Order.settled (o : Order) : Order :=
  { o with status := if o.quantity = 0 then .filled else o.liveStatus }

def Order.resting (o : Order) : List Order := if o.quantity = 0 then [] else [o]

theorem Order.liveStatus_isTerminal (o : Order) : o.liveStatus.isTerminal = false := by
  unfold liveStatus
  split <;> rfl

theorem restingAt_resting (t : Order) : restingAt t.price t.resting = t.quantity := by
  unfold Order.resting
  split
  · rename_i spent
    exact spent.symm
  · rw [restingAt_cons]
    rfl

theorem mem_resting_settled {t x : Order} :
    x ∈ t.settled.resting ↔ x = t.settled ∧ x.status.isTerminal = false := by
  unfold Order.resting
  split
  · rename_i spent
    have ended : t.settled.status = .filled := if_pos spent
    simp only [List.not_mem_nil, false_iff, not_and]
    rintro rfl
    simp [ended, Status.isTerminal]
  · rename_i left
    have live : t.settled.status = t.liveStatus := if_neg left
    rw [List.mem_singleton]
    refine (and_iff_left_of_imp ?_).symm
    rintro rfl
    rw [live, Order.liveStatus_isTerminal]

namespace Engine

def takerOf (e : Engine) (o : Order) : Order :=
  { o with sequence := e.nextSequence, size := o.quantity, status := .opened }

variable {e : Engine} {o : Order} {m : Moment}

theorem Sound.contains (h : e.Sound) (id : OrderId) :
    e.book.contains id = e.book.orders.any (·.id == id) := by
  rw [Bool.eq_iff_iff, h.book.contains, List.any_eq_true]
  simp

/-- The checks of a submission, as questions about what rests. -/
theorem Sound.rejection?_eq (h : e.Sound) (o : Order) :
    e.rejection? o =
      if o.quantity = 0 then some (.invalid (.quantity o.quantity))
      else if e.book.orders.any (·.id == o.id) then some (.duplicate o.id)
      else if restingAt o.price (e.book.ladder o.side).orders + o.quantity ≤ Text.maxCount then none
      else some (.overflow o.id o.price) := by
  rw [rejection?, h.contains, h.book.volume]

theorem submit_rejected {r : Rejection} (h : e.rejection? o = some r) :
    e.submit o m = .ok (e, .error r) := by
  simp [submit, h]

/-- What comes of an accepted order: its fills, and what is left of both sides. -/
structure Accepted (e : Engine) (o : Order) (r : Matched) (e' : Engine) : Prop where
  sound : e'.Sound
  queue : (e'.book.ladder o.side.opposite).orders = r.rest
  own : (e'.book.ladder o.side).orders.Perm
    (r.taker.settled.resting ++ (e.book.ladder o.side).orders)
  nextSequence : e'.nextSequence = e.nextSequence + 1
  nextTrade : e'.nextTrade = e.nextTrade + r.fills.length

def matchOf (e : Engine) (o : Order) (m : Moment) : Matched :=
  matchQueue m e.nextTrade (e.takerOf o) (e.book.ladder o.side.opposite).orders

theorem matchOf_taker (e : Engine) (o : Order) (m : Moment) :
    ∃ quantity updatedAt, quantity ≤ o.quantity ∧
      (e.matchOf o m).taker = { e.takerOf o with quantity, updatedAt } :=
  matchQueue_taker m e.nextTrade (e.takerOf o) _

/-- A submitted order is numbered and measured anew; of the rest of it only what is left, the status
and the time change. -/
theorem matchOf_settled (e : Engine) (o : Order) (m : Moment) :
    ∃ quantity updatedAt status, quantity ≤ o.quantity ∧
      (e.matchOf o m).taker.settled =
        { o with sequence := e.nextSequence, size := o.quantity, quantity, updatedAt, status } := by
  obtain ⟨quantity, updatedAt, less, taker⟩ := e.matchOf_taker o m
  refine ⟨quantity, updatedAt, (e.matchOf o m).taker.settled.status, less, ?_⟩
  rw [Order.settled, taker]
  rfl

theorem Sound.rejection?_none (h : e.Sound) : e.rejection? o = none ↔
    0 < o.quantity ∧ (∀ x ∈ e.book.orders, x.id ≠ o.id) ∧
      restingAt o.price (e.book.ladder o.side).orders + o.quantity ≤ Text.maxCount := by
  rw [h.rejection?_eq]
  by_cases zero : o.quantity = 0
  · simp [zero]
  · by_cases dup : e.book.orders.any (·.id == o.id) = true
    · obtain ⟨x, hx, same⟩ := List.any_eq_true.mp dup
      simp only [zero, dup, if_true, if_false, reduceCtorEq, false_iff, not_and]
      exact fun _ fresh => absurd (by simpa using same) (fresh x hx)
    · have fresh : ∀ x ∈ e.book.orders, x.id ≠ o.id := by simpa using dup
      simp only [zero, dup, if_false, Nat.pos_of_ne_zero zero, true_and]
      exact ⟨fun h => ⟨fresh, by simpa using h⟩, fun h => if_pos h.2⟩

theorem Sound.placed (h : e.Sound) {b : Book} (book : b.Sound)
    (perm : b.orders.Perm (o :: e.book.orders)) {next : Nat}
    (last : ∀ x ∈ e.book.orders, x.sequence < o.sequence) (positive : 0 < o.sequence)
    (after : o.sequence < next) : Sound { e with book := b, nextSequence := next } where
  book := book
  sequences := by
    refine ((perm.map _).nodup_iff).mpr (List.nodup_cons.mpr ⟨fun hm => ?_, h.sequences⟩)
    obtain ⟨x, hx, same⟩ := List.mem_map.mp hm
    exact absurd same (Nat.ne_of_lt (last x hx))
  numbered x hx := by
    rcases List.mem_cons.mp (perm.mem_iff.mp hx) with rfl | hx
    · exact ⟨positive, after⟩
    · exact ⟨(h.numbered x hx).1, Nat.lt_trans (last x hx) after⟩
  started := Nat.lt_trans positive after

theorem Sound.advance (h : e.Sound) {next : Nat} (le : e.nextSequence ≤ next) :
    Sound { e with nextSequence := next } :=
  ⟨h.book, h.sequences, fun x hx =>
    ⟨(h.numbered x hx).1, Nat.lt_of_lt_of_le (h.numbered x hx).2 le⟩,
    Nat.lt_of_lt_of_le h.started le⟩

theorem Sound.resume (h : e.Sound) (last : Nat) : (e.resumeTrades last).Sound :=
  ⟨h.book, h.sequences, h.numbered, h.started⟩

/-- Whoever rests after some fills rested before, in all that the rest of the queue shares with the
queue. -/
theorem SweptTo.before {α : Type} (f : Order → α) {side : Side} {r : Matched} {e' : Engine}
    (s : SweptTo e side r e')
    (part : r.rest.map f ⊆ (e.book.ladder side.opposite).orders.map f) :
    ∀ x ∈ e'.book.orders, ∃ y ∈ e.book.orders, f y = f x := by
  intro x hx
  rcases List.mem_append.mp ((Book.orders_perm e'.book side).mem_iff.mp hx) with hx | hx
  · exact ⟨x, Book.mem_of_ladder (s.own ▸ hx), rfl⟩
  · rw [s.queue] at hx
    obtain ⟨y, hy, hf⟩ := List.mem_map.mp (part (List.mem_map_of_mem hx))
    exact ⟨y, Book.mem_of_ladder hy, hf⟩

/-- Whoever rests once an order has been matched rested before, and so is earlier in line. -/
theorem SweptTo.earlier (h : e.Sound) {e' : Engine}
    (s : SweptTo { e with nextSequence := e.nextSequence + 1 } o.side (e.matchOf o m) e') :
    ∀ x ∈ e'.book.orders, x.sequence < e.nextSequence ∧ ∃ y ∈ e.book.orders, y.id = x.id := by
  have part := matchQueue_rest_sublist (fun x => (x.id, x.sequence)) (fun _ _ _ => rfl) m
    e.nextTrade (e.takerOf o) (e.book.ladder o.side.opposite).orders
  intro x hx
  obtain ⟨y, hy, same⟩ := s.before _ part.subset x hx
  obtain ⟨sameId, sameSequence⟩ := Prod.mk.inj same
  exact ⟨sameSequence ▸ (h.numbered y hy).2, y, hy, sameId⟩

theorem SweptTo.fresh (h : e.Sound) {e' : Engine} {id : OrderId}
    (s : SweptTo { e with nextSequence := e.nextSequence + 1 } o.side (e.matchOf o m) e')
    (fresh : ∀ x ∈ e.book.orders, x.id ≠ id) : ∀ x ∈ e'.book.orders, x.id ≠ id := by
  intro x hx same
  obtain ⟨-, y, hy, kept⟩ := s.earlier h x hx
  exact fresh y hy (kept.trans same)

/-- What is left of an accepted order can rest, since matching leaves its own side alone. -/
theorem SweptTo.placeable (h : e.Sound) (accepted : e.rejection? o = none) {e' : Engine}
    (s : SweptTo { e with nextSequence := e.nextSequence + 1 } o.side (e.matchOf o m) e')
    (left : (e.matchOf o m).taker.quantity ≠ 0) :
    e'.book.Placeable (e.matchOf o m).taker.settled := by
  obtain ⟨-, fresh, room⟩ := h.rejection?_none.mp accepted
  obtain ⟨quantity, updatedAt, status, less, settled⟩ := e.matchOf_settled o m
  have own : e'.book.ladder o.side = e.book.ladder o.side := s.own
  exact
    { left := Nat.pos_of_ne_zero left
      live := by
        simp only [Order.settled, left, if_false]
        exact Order.liveStatus_isTerminal _
      fresh := by
        rw [settled]
        exact s.fresh h fresh
      room := by
        rw [settled]
        simp only [own]
        omega }

/-- An order is taken in and matched, and nothing is asked about its own level. -/
def matchFirst (e : Engine) (o : Order) (m : Moment) : Except Fault (Engine × Order × List Fill) :=
  sweepAll { e with nextSequence := e.nextSequence + 1 } (e.takerOf o) m

theorem Sound.matchFirst (h : e.Sound) (o : Order) (m : Moment) :
    ∃ e₂, e.matchFirst o m = .ok (e₂, (e.matchOf o m).taker, (e.matchOf o m).fills) ∧
      SweptTo { e with nextSequence := e.nextSequence + 1 } o.side (e.matchOf o m) e₂ :=
  (h.advance (Nat.le_succ _)).sweep (t := e.takerOf o)
    ((e.book.ladder o.side.opposite).orderCount + 1) m
    (.inr (Nat.lt_succ_of_le (Nat.le_of_eq (Ladder.orderCount_eq _).symm)))

theorem Sound.submit (h : e.Sound) (accepted : e.rejection? o = none) (m : Moment) :
    ∃ e', e.submit o m = .ok (e', .ok ⟨(e.matchOf o m).taker.settled, (e.matchOf o m).fills⟩) ∧
      Accepted e o (e.matchOf o m) e' := by
  obtain ⟨e₂, swept, s⟩ := h.matchFirst o m
  have body : e.submit o m = e₂.rest (e.matchOf o m).taker (e.matchOf o m).fills := by
    simp only [Engine.submit, accepted]
    exact congrArg (· >>= fun r => Engine.rest r.1 r.2.1 r.2.2) swept
  rw [body, Engine.rest]
  by_cases spent : (e.matchOf o m).taker.quantity = 0
  · refine ⟨e₂, by simp [spent, Order.settled], s.sound, s.queue, ?_, s.nextSequence, s.nextTrade⟩
    simp only [Order.settled, Order.resting, spent, if_true, List.nil_append]
    rw [s.own]
  · obtain ⟨quantity, updatedAt, status, -, settled⟩ := e.matchOf_settled o m
    have side : (e.matchOf o m).taker.settled.side = o.side := by rw [settled]
    have sequence : (e.matchOf o m).taker.settled.sequence = e.nextSequence := by rw [settled]
    have own : e₂.book.ladder o.side = e.book.ladder o.side := s.own
    have last : ∀ x ∈ e₂.book.orders, x.sequence < (e.matchOf o m).taker.settled.sequence :=
      fun x hx => sequence ▸ (s.earlier h x hx).1
    obtain ⟨b, added, sound, other, ⟨before, after, hs, hs'⟩, perm⟩ :=
      s.sound.book.add (s.placeable h accepted spent) fun x hx _ =>
        last x (Book.mem_of_ladder hx)
    rw [side] at other hs hs'
    refine ⟨{ e₂ with book := b }, ?_, ?_, ?_, ?_, s.nextSequence, s.nextTrade⟩
    · have live : { (e.matchOf o m).taker with status := (e.matchOf o m).taker.liveStatus } =
          (e.matchOf o m).taker.settled := by simp [Order.settled, spent]
      simp [spent, live, added]
    · apply s.sound.placed sound perm last (sequence ▸ h.started)
      rw [sequence, s.nextSequence]
      exact Nat.lt_succ_self _
    · rw [other]
      exact s.queue
    · have rests : (e.matchOf o m).taker.settled.resting = [(e.matchOf o m).taker.settled] :=
        if_neg spent
      rw [hs', rests, ← own, hs]
      exact List.perm_middle

theorem Sound.submit_ok (h : e.Sound) {e' : Engine} {x : Execution}
    (ok : e.submit o m = .ok (e', .ok x)) :
    e.rejection? o = none ∧ x = ⟨(e.matchOf o m).taker.settled, (e.matchOf o m).fills⟩ ∧
      Accepted e o (e.matchOf o m) e' := by
  cases rejection : e.rejection? o with
  | some r => cases (submit_rejected rejection).symm.trans ok
  | none =>
    obtain ⟨_, submitted, accepted⟩ := h.submit rejection m
    cases submitted.symm.trans ok
    exact ⟨rfl, rfl, accepted⟩

/-- The makers of a match are some of those that rest, each once. -/
theorem Sound.makers (h : e.Sound) (o : Order) (m : Moment) :
    (((e.matchOf o m).fills.map (·.maker)).map (·.id)).Nodup ∧
      ∀ id ∈ ((e.matchOf o m).fills.map (·.maker)).map (·.id), ∃ x ∈ e.book.orders, x.id = id := by
  have front := matchQueue_makers m e.nextTrade (e.takerOf o) (e.book.ladder o.side.opposite).orders
  rw [List.map_map]
  refine ⟨(h.book.side_ids _).sublist front.sublist, fun id hid => ?_⟩
  obtain ⟨x, hx, same⟩ := List.mem_map.mp (front.subset hid)
  exact ⟨x, Book.mem_of_ladder hx, same⟩

/-- After a submission there rest, as far as they are live, the order and its makers, and all that
took no part. -/
theorem Accepted.mem_orders {e' : Engine} (a : Accepted e o (e.matchOf o m) e') (h : e.Sound)
    (x : Order) : x ∈ e'.book.orders ↔
      (x = (e.matchOf o m).taker.settled ∧ x.status.isTerminal = false) ∨
      (x ∈ (e.matchOf o m).fills.map (·.maker) ∧ x.status.isTerminal = false) ∨
      (x ∈ e.book.orders ∧ x.id ∉ ((e.matchOf o m).fills.map (·.maker)).map (·.id)) := by
  have sides := Book.orders_perm e.book o.side
  obtain ⟨-, queueIds, apart⟩ := List.nodup_append.mp (h.book.ids_apart o.side)
  have front := matchQueue_makers m e.nextTrade (e.takerOf o) (e.book.ladder o.side.opposite).orders
  have rest := mem_matchQueue_rest m e.nextTrade (e.takerOf o) queueIds x
  change x ∈ (e.matchOf o m).rest ↔ _ at rest
  rw [(Book.orders_perm e'.book o.side).mem_iff, List.mem_append, a.own.mem_iff, a.queue,
    List.mem_append, mem_resting_settled, rest, sides.mem_iff, List.mem_append, List.map_map]
  constructor
  · rintro ((taker | mine) | maker | ⟨theirs, others⟩)
    · exact .inl taker
    · exact .inr (.inr ⟨.inl mine, fun hm =>
        apart _ (List.mem_map_of_mem mine) _ (front.subset hm) rfl⟩)
    · exact .inr (.inl maker)
    · exact .inr (.inr ⟨.inr theirs, others⟩)
  · rintro (taker | maker | ⟨mine | theirs, others⟩)
    · exact .inl (.inl taker)
    · exact .inr (.inl maker)
    · exact .inl (.inr mine)
    · exact .inr (.inr ⟨theirs, others⟩)

/-- Once an order has been taken in, there rests nobody but it and those that rested. -/
theorem Accepted.ids {e' : Engine} (a : Accepted e o (e.matchOf o m) e') (h : e.Sound) :
    ∀ x ∈ e'.book.orders, x.id = o.id ∨ ∃ y ∈ e.book.orders, y.id = x.id := by
  intro x hx
  rcases (a.mem_orders h x).mp hx with ⟨rfl, -⟩ | ⟨maker, -⟩ | ⟨here, -⟩
  · obtain ⟨_, _, _, -, settled⟩ := e.matchOf_settled o m
    rw [settled]
    exact .inl rfl
  · exact .inr ((h.makers o m).2 x.id (List.mem_map_of_mem maker))
  · exact .inr ⟨x, here, rfl⟩

/-- What the cancellation of a resting order leaves: every other order in its place. -/
structure Cancelled (e : Engine) (o : Order) (e' : Engine) : Prop where
  sound : e'.Sound
  other : e'.book.ladder o.side.opposite = e.book.ladder o.side.opposite
  own : ∃ before after, (e.book.ladder o.side).orders = before ++ o :: after ∧
    (e'.book.ladder o.side).orders = before ++ after
  orders : e.book.orders.Perm (o :: e'.book.orders)
  nextSequence : e'.nextSequence = e.nextSequence
  nextTrade : e'.nextTrade = e.nextTrade

theorem Sound.cancel (h : e.Sound) (here : o ∈ e.book.orders) (now : Instant) :
    ∃ e', e.cancel o.id now = .ok (e', some { o with status := .cancelled, updatedAt := now }) ∧
      Cancelled e o e' := by
  obtain ⟨b, hok, book, other, own, perm⟩ := h.book.remove here
  refine ⟨{ e with book := b }, by simp [Engine.cancel, hok], ?_, other, own, perm, rfl, rfl⟩
  refine h.of_sublist book o.side other ?_ (Nat.le_refl _)
  obtain ⟨before, after, hs, hs'⟩ := own
  rw [hs, hs', List.map_append, List.map_append, List.map_cons]
  exact (List.sublist_cons_self _ _).append_left _

theorem Sound.cancel_none (h : e.Sound) {id : OrderId} (absent : ∀ x ∈ e.book.orders, x.id ≠ id)
    (now : Instant) : e.cancel id now = .ok (e, none) := by
  simp [Engine.cancel, h.book.remove_none absent]

def restored (e : Engine) (o : Order) : Order :=
  { o with sequence := max o.sequence e.nextSequence, status := o.liveStatus }

/-- What the return of an order leaves: every other order in its place. -/
structure Restored (e : Engine) (o : Order) (e' : Engine) : Prop where
  sound : e'.Sound
  other : e'.book.ladder o.side.opposite = e.book.ladder o.side.opposite
  own : ∃ before after, (e.book.ladder o.side).orders = before ++ after ∧
    (e'.book.ladder o.side).orders = before ++ e.restored o :: after
  orders : e'.book.orders.Perm (e.restored o :: e.book.orders)
  nextSequence : e'.nextSequence = (e.restored o).sequence + 1
  nextTrade : e'.nextTrade = e.nextTrade

theorem Sound.restoreOne_placed (h : e.Sound) (live : o.status.isTerminal = false)
    (placeable : e.book.Placeable (e.restored o)) :
    ∃ e', e.restoreOne o = .ok (e', some (e.restored o)) ∧ Restored e o e' := by
  have turn : ∀ x ∈ e.book.orders, x.sequence < (e.restored o).sequence := fun x hx =>
    Nat.lt_of_lt_of_le (h.numbered x hx).2 (Nat.le_max_right _ _)
  obtain ⟨b, hok, book, other, own, perm⟩ := h.book.add placeable fun x hx _ =>
    turn x (Book.mem_of_ladder hx)
  have left : o.quantity ≠ 0 := Nat.ne_of_gt placeable.left
  have positive : 0 < (e.restored o).sequence :=
    Nat.lt_of_lt_of_le h.started (Nat.le_max_right _ _)
  refine ⟨{ e with book := b, nextSequence := (e.restored o).sequence + 1 }, ?_,
    h.placed book perm turn positive (Nat.lt_succ_self _), other, own, perm, rfl, rfl⟩
  unfold restored at hok ⊢
  simp [Engine.restoreOne, left, live, hok]

theorem Sound.restoreOne_skipped (h : e.Sound)
    (out : o.status.isTerminal = true ∨ ¬ e.book.Placeable (e.restored o)) :
    e.restoreOne o = .ok (e, none) := by
  by_cases left : o.quantity = 0
  · simp [Engine.restoreOne, left]
  · by_cases live : o.status.isTerminal = true
    · simp [Engine.restoreOne, live]
    · obtain ⟨r, hr⟩ := Option.ne_none_iff_exists'.mp
        (mt h.book.refusal?_none.mp (out.resolve_left live))
      unfold restored at hr
      simp [Engine.restoreOne, left, live, Book.add, hr]

/-- A list of orders is gone through: each comes back, unless it is over or cannot rest. -/
inductive Returned : Engine → List Order → List Order → Engine → Prop where
  | nil {e : Engine} : Returned e [] [] e
  | skipped {e e' : Engine} {o : Order} {os placed : List Order} :
      (o.status.isTerminal = true ∨ ¬ e.book.Placeable (e.restored o)) →
      Returned e os placed e' → Returned e (o :: os) placed e'
  | placed {e e₁ e' : Engine} {o : Order} {os placed : List Order} :
      o.status.isTerminal = false → e.book.Placeable (e.restored o) → Restored e o e₁ →
      Returned e₁ os placed e' → Returned e (o :: os) (e.restored o :: placed) e'

theorem Returned.orders {e' : Engine} {os placed : List Order} (r : Returned e os placed e') :
    e'.book.orders.Perm (placed ++ e.book.orders) := by
  induction r with
  | nil => exact .refl _
  | skipped _ _ ih => exact ih
  | placed _ _ one _ ih => exact ih.trans ((one.orders.append_left _).trans List.perm_middle)

theorem Sound.restoreAll (h : e.Sound) (os : List Order) :
    ∃ e' placed, e.restoreAll os = .ok (e', placed) ∧ Returned e os placed e' := by
  induction os generalizing e with
  | nil => exact ⟨e, [], rfl, .nil⟩
  | cons o os ih =>
    by_cases back : o.status.isTerminal = false ∧ e.book.Placeable (e.restored o)
    · obtain ⟨e₁, hok, r⟩ := h.restoreOne_placed back.1 back.2
      obtain ⟨e₂, placed, hok₂, more⟩ := ih r.sound
      exact ⟨e₂, _, by simp [Engine.restoreAll, hok, hok₂], .placed back.1 back.2 r more⟩
    · have out : o.status.isTerminal = true ∨ ¬ e.book.Placeable (e.restored o) := by
        cases hs : o.status.isTerminal with
        | true => exact .inl rfl
        | false => exact .inr fun p => back ⟨hs, p⟩
      obtain ⟨e₂, placed, hok₂, more⟩ := ih h
      exact ⟨e₂, _, by simp [Engine.restoreAll, h.restoreOne_skipped out, hok₂],
        .skipped out more⟩

end Engine
end Bourse
