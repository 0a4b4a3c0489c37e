import Bourse.Proofs.Engine.Counters
import Bourse.Proofs.Engine.Reversal

/-! Reflection: two engines, the one with the buyers of the other for sellers and with the order of
prices turned round. Each call, reflected, has the reflected outcome, although the best bid and the
best ask are found at different ends of the prices. -/
namespace Bourse

namespace Engine

/-- The second engine has the reflected orders of the first, in the same queues. -/
structure Reflection (f : Price → Price) (ps : List Price) (e e' : Engine) : Prop where
  sound : e.Sound
  sound' : e'.Sound
  priced : ∀ o ∈ e.book.orders, o.price ∈ ps
  queues : ∀ side, (e'.book.ladder side.opposite).orders =
    (e.book.ladder side).orders.map (·.reflected f)
  nextSequence : e'.nextSequence = e.nextSequence
  nextTrade : e'.nextTrade = e.nextTrade

variable {f : Price → Price} {ps : List Price} {e e' e₁ e₁' : Engine} {o : Order} {m : Moment}

namespace Reflection

theorem priced_side (h : Reflection f ps e e') (side : Side) :
    ∀ o ∈ (e.book.ladder side).orders, o.price ∈ ps := fun o ho =>
  h.priced o (Book.mem_of_ladder ho)

theorem orders (h : Reflection f ps e e') :
    e'.book.orders.Perm (e.book.orders.map (·.reflected f)) := by
  rw [Book.orders, Book.orders, List.map_append]
  refine (List.Perm.of_eq ?_).trans List.perm_append_comm
  exact congrArg₂ (· ++ ·) (h.queues .sell) (h.queues .buy)

theorem mem_reflected (h : Reflection f ps e e') (here : o ∈ e.book.orders) :
    o.reflected f ∈ e'.book.orders :=
  h.orders.mem_iff.mpr (List.mem_map_of_mem here)

theorem any_id (h : Reflection f ps e e') (id : OrderId) :
    e'.book.orders.any (·.id == id) = e.book.orders.any (·.id == id) := by
  rw [h.orders.any_eq, List.any_map]
  rfl

theorem rejection? (h : Reflection f ps e e') (r : Reverses f ps) (limit : o.price ∈ ps) :
    e'.rejection? (o.reflected f) = (e.rejection? o).map (·.reflected f) := by
  have level : restingAt (o.reflected f).price (e'.book.ladder (o.reflected f).side).orders =
      restingAt o.price (e.book.ladder o.side).orders := by
    have same := r.restingAt limit (h.priced_side o.side)
    rw [← h.queues] at same
    exact same
  rw [h.sound.rejection?_eq, h.sound'.rejection?_eq, level, h.any_id]
  change (if o.quantity = 0 then _ else if e.book.orders.any (·.id == o.id) then _ else
    if _ + o.quantity ≤ _ then _ else _) = _
  split
  · rfl
  · split
    · rfl
    · split <;> rfl

theorem matched (h : Reflection f ps e e') (r : Reverses f ps) (limit : o.price ∈ ps) :
    e'.matchOf (o.reflected f) m =
      let x := e.matchOf o m
      ⟨x.taker.reflected f, x.fills.map (·.reflected f), x.rest.map (·.reflected f)⟩ := by
  have taker : e'.takerOf (o.reflected f) = (e.takerOf o).reflected f := by
    rw [takerOf, h.nextSequence]
    rfl
  have queue := h.queues o.side.opposite
  have same := r.matchQueue m e.nextTrade (t := e.takerOf o) limit
    (h.priced_side o.side.opposite)
  rw [← taker, ← queue] at same
  rw [matchOf, h.nextTrade]
  exact same

/-- Engines stay reflections of each other if the orders of each side do, in any sequence. -/
theorem of_perm (r : Reverses f ps) (sound : e.Sound) (sound' : e'.Sound)
    (priced : ∀ o ∈ e.book.orders, o.price ∈ ps)
    (sides : ∀ side, (e'.book.ladder side.opposite).orders.Perm
      ((e.book.ladder side).orders.map (·.reflected f)))
    (nextSequence : e'.nextSequence = e.nextSequence) (nextTrade : e'.nextTrade = e.nextTrade) :
    Reflection f ps e e' where
  sound := sound
  sound' := sound'
  priced := priced
  queues side := by
    apply (sound.book.ladders side).orders_eq_map (sound'.book.ladders _) (r.carries side ?_)
      (sides side)
    exact fun o ho =>
      priced o (Book.mem_of_ladder ho)
  nextSequence := nextSequence
  nextTrade := nextTrade

theorem accepted (h : Reflection f ps e e') (r : Reverses f ps) (limit : o.price ∈ ps)
    (a : Accepted e o (e.matchOf o m) e₁)
    (a' : Accepted e' (o.reflected f) (e'.matchOf (o.reflected f) m) e₁') :
    Reflection f ps e₁ e₁' := by
  have matched := h.matched (m := m) r limit
  apply of_perm r a.sound a'.sound
  · intro x hx
    rcases List.mem_append.mp ((Book.orders_perm e₁.book o.side).mem_iff.mp hx) with hx | hx
    · rcases List.mem_append.mp (a.own.mem_iff.mp hx) with hx | hx
      · obtain ⟨_, _, _, -, settled⟩ := e.matchOf_settled o m
        rw [(mem_resting_settled.mp hx).1, settled]
        exact limit
      · exact h.priced_side _ x hx
    · rw [a.queue] at hx
      have part := matchQueue_rest_sublist Order.price (fun _ _ _ => rfl) m e.nextTrade
        (e.takerOf o) (e.book.ladder o.side.opposite).orders
      obtain ⟨y, hy, same⟩ := List.mem_map.mp (part.subset (List.mem_map_of_mem hx))
      exact same ▸ h.priced_side _ y hy
  · intro side
    rcases Side.eq_or_eq_opposite side o.side with rfl | rfl
    · refine a'.own.trans (.trans (.of_eq ?_) (a.own.map _).symm)
      rw [matched, Order.settled_reflected, Order.resting_reflected, List.map_append]
      exact congrArg _ (h.queues o.side)
    · have queue := a'.queue
      rw [matched] at queue
      rw [a.queue]
      exact .of_eq queue
  · rw [a.nextSequence, a'.nextSequence, h.nextSequence]
  · rw [a.nextTrade, a'.nextTrade, h.nextTrade, matched, List.length_map]

theorem cancelled (h : Reflection f ps e e') (r : Reverses f ps) (c : Cancelled e o e₁)
    (c' : Cancelled e' (o.reflected f) e₁') : Reflection f ps e₁ e₁' := by
  apply of_perm r c.sound c'.sound
  · exact fun x hx => h.priced x (c.orders.mem_iff.mpr (List.mem_cons_of_mem _ hx))
  · intro side
    rcases Side.eq_or_eq_opposite side o.side with rfl | rfl
    · obtain ⟨before, after, hs, hs'⟩ := c.own
      obtain ⟨before', after', ht, ht'⟩ := c'.own
      have same : before' ++ o.reflected f :: after' =
          (before ++ o :: after).map (·.reflected f) := by
        rw [← hs, ← h.queues]
        exact ht.symm
      rw [List.map_append, List.map_cons] at same
      have moved := List.perm_middle.symm.trans ((List.Perm.of_eq same).trans List.perm_middle)
      have rest : (e₁'.book.ladder o.side.opposite).orders = before' ++ after' := ht'
      rw [rest, hs', List.map_append]
      exact moved.cons_inv
    · have other : e₁'.book.ladder o.side.opposite.opposite =
          e'.book.ladder o.side.opposite.opposite := c'.other
      rw [c.other, other, h.queues]
  · rw [c.nextSequence, c'.nextSequence, h.nextSequence]
  · rw [c.nextTrade, c'.nextTrade, h.nextTrade]

theorem restored (h : Reflection f ps e e') :
    e'.restored (o.reflected f) = (e.restored o).reflected f := by
  rw [Engine.restored, h.nextSequence]
  rfl

theorem placeable (h : Reflection f ps e e') (r : Reverses f ps) (limit : o.price ∈ ps) :
    e'.book.Placeable (o.reflected f) ↔ e.book.Placeable o := by
  have fresh : (∀ x ∈ e'.book.orders, x.id ≠ o.id) ↔ ∀ x ∈ e.book.orders, x.id ≠ o.id := by
    constructor
    · exact fun absent x hx => absent (x.reflected f) (h.mem_reflected hx)
    · intro absent x hx
      obtain ⟨y, hy, rfl⟩ := List.mem_map.mp (h.orders.mem_iff.mp hx)
      exact absent y hy
  have level := r.restingAt limit (h.priced_side o.side)
  rw [← h.queues] at level
  constructor
  · intro p
    have room := p.room
    exact ⟨p.left, p.live, fresh.mp p.fresh, level ▸ room⟩
  · intro p
    have room := p.room
    rw [← level] at room
    exact ⟨p.left, p.live, fresh.mpr p.fresh, room⟩

theorem placed (h : Reflection f ps e e') (r : Reverses f ps) (limit : o.price ∈ ps)
    (p : Restored e o e₁) (p' : Restored e' (o.reflected f) e₁') : Reflection f ps e₁ e₁' := by
  apply of_perm r p.sound p'.sound
  · intro x hx
    rcases List.mem_cons.mp (p.orders.mem_iff.mp hx) with rfl | hx
    · exact limit
    · exact h.priced x hx
  · intro side
    rcases Side.eq_or_eq_opposite side o.side with rfl | rfl
    · obtain ⟨before, after, hs, hs'⟩ := p.own
      obtain ⟨before', after', ht, ht'⟩ := p'.own
      have same : before' ++ after' = (before ++ after).map (·.reflected f) := by
        rw [← hs, ← h.queues]
        exact ht.symm
      have rest : (e₁'.book.ladder o.side.opposite).orders =
          before' ++ (e.restored o).reflected f :: after' := by
        rw [← h.restored]
        exact ht'
      rw [rest, hs', List.map_append, List.map_cons]
      rw [List.map_append] at same
      exact List.perm_middle.trans (((List.Perm.of_eq same).cons _).trans List.perm_middle.symm)
    · have other : e₁'.book.ladder o.side.opposite.opposite =
          e'.book.ladder o.side.opposite.opposite := p'.other
      rw [p.other, other, h.queues]
  · rw [p.nextSequence, p'.nextSequence, h.restored]
    rfl
  · rw [p.nextTrade, p'.nextTrade, h.nextTrade]

theorem returned {os placed placed' : List Order} (h : Reflection f ps e e') (r : Reverses f ps)
    (limits : ∀ o ∈ os, o.price ∈ ps) (b : Returned e os placed e₁)
    (b' : Returned e' (os.map (·.reflected f)) placed' e₁') :
    placed' = placed.map (·.reflected f) ∧ Reflection f ps e₁ e₁' := by
  induction b generalizing e' placed' with
  | nil =>
    cases b'
    exact ⟨rfl, h⟩
  | @skipped e e₁ o os placed out _ ih =>
    have limit := limits o List.mem_cons_self
    have others : ∀ x ∈ os, x.price ∈ ps := fun x hx => limits x (List.mem_cons_of_mem _ hx)
    have fits := h.placeable (o := e.restored o) r limit
    rw [← h.restored] at fits
    cases b' with
    | skipped _ more => exact ih h others more
    | placed live fits' =>
      have alive : o.status.isTerminal = false := live
      rcases out with ended | stuck
      · rw [alive] at ended
        cases ended
      · exact absurd (fits.mp fits') stuck
  | @placed e e₁ e₂ o os placed live fits₀ one _ ih =>
    have limit := limits o List.mem_cons_self
    have others : ∀ x ∈ os, x.price ∈ ps := fun x hx => limits x (List.mem_cons_of_mem _ hx)
    have fits := h.placeable (o := e.restored o) r limit
    rw [← h.restored] at fits
    cases b' with
    | skipped out more =>
      have alive : (o.reflected f).status.isTerminal = false := live
      rcases out with ended | stuck
      · rw [alive] at ended
        cases ended
      · exact absurd (fits.mpr fits₀) stuck
    | placed _ _ one' more =>
      obtain ⟨same, last⟩ := ih (h.placed r limit one one') others more
      exact ⟨by rw [same, h.restored, List.map_cons], last⟩

theorem submitted {o : Order} {m : Moment} {out out' : Outcome} (h : Reflection f ps e e')
    (r : Reverses f ps) (limit : o.price ∈ ps) (did : Effect e (.instruct (.submit o m)) out e₁)
    (did' : Effect e' (.instruct (.submit (o.reflected f) m)) out' e₁') :
    out' = out.reflected f ∧ Reflection f ps e₁ e₁' := by
  have same := h.rejection? r limit
  cases did with
  | rejected rejected =>
    rw [rejected] at same
    cases did' with
    | rejected rejected' =>
      rw [same] at rejected'
      cases rejected'
      exact ⟨rfl, h⟩
    | accepted accepted' =>
      rw [same] at accepted'
      cases accepted'
  | accepted accepted a =>
    rw [accepted] at same
    cases did' with
    | rejected rejected' =>
      rw [same] at rejected'
      cases rejected'
    | accepted _ a' =>
      refine ⟨?_, h.accepted r limit a a'⟩
      rw [h.matched r limit]
      rfl

theorem cancelledOrNot {id : OrderId} {now : Instant} {out out' : Outcome}
    (h : Reflection f ps e e') (r : Reverses f ps)
    (did : Effect e (.instruct (.cancel id now)) out e₁)
    (did' : Effect e' (.instruct (.cancel id now)) out' e₁') :
    out' = out.reflected f ∧ Reflection f ps e₁ e₁' := by
  rcases did.cancel with ⟨o, here, same, c, rfl⟩ | ⟨absent, rfl, rfl⟩ <;>
    rcases did'.cancel with ⟨o', here', same', c', rfl⟩ | ⟨absent', rfl, rfl⟩
  · obtain ⟨x, hx, rfl⟩ := List.mem_map.mp (h.orders.mem_iff.mp here')
    obtain rfl : x = o :=
      List.inj_on_of_nodup_map h.sound.book.ids hx here (same'.trans same.symm)
    exact ⟨rfl, h.cancelled r c c'⟩
  · exact absurd same (absent' (o.reflected f) (h.mem_reflected here))
  · obtain ⟨x, hx, rfl⟩ := List.mem_map.mp (h.orders.mem_iff.mp here')
    exact absurd same' (absent x hx)
  · exact ⟨rfl, h⟩

theorem step (h : Reflection f ps e e') (r : Reverses f ps) (s : Step)
    (limits : ∀ p ∈ s.prices, p ∈ ps) :
    ∃ e₁ out e₁', e.step s = .ok (e₁, out) ∧
      e'.step (s.reflected f) = .ok (e₁', out.reflected f) ∧ Reflection f ps e₁ e₁' := by
  obtain ⟨e₁, out, hok, did⟩ := h.sound.step s
  obtain ⟨e₁', out', hok', did'⟩ := h.sound'.step (s.reflected f)
  have both : out' = out.reflected f ∧ Reflection f ps e₁ e₁' := by
    cases s with
    | instruct i =>
      cases i with
      | submit o m => exact h.submitted r (limits o.price (List.mem_singleton_self _)) did did'
      | cancel id now => exact h.cancelledOrNot r did did'
    | restore os =>
      cases did with
      | restored b =>
        cases did' with
        | restored b' =>
          rw [mergeSort_reflected] at b'
          obtain ⟨rfl, next⟩ := h.returned r (fun o ho => limits o.price
            (List.mem_map_of_mem ((List.mergeSort_perm _ _).mem_iff.mp ho))) b b'
          exact ⟨rfl, next⟩
    | resume last =>
      cases did
      cases did'
      refine ⟨rfl, h.sound.resume last, h.sound'.resume last, h.priced, h.queues,
        h.nextSequence, ?_⟩
      exact congrArg (max · (last + 1)) h.nextTrade
  obtain ⟨rfl, next⟩ := both
  exact ⟨e₁, out, e₁', hok, hok', next⟩

theorem run (h : Reflection f ps e e') (r : Reverses f ps) (ss : List Step)
    (limits : ∀ s ∈ ss, ∀ p ∈ s.prices, p ∈ ps) :
    ∃ e₁ outs e₁', e.run ss = .ok (e₁, outs) ∧
      e'.run (ss.map (·.reflected f)) = .ok (e₁', outs.map (·.reflected f)) ∧
      Reflection f ps e₁ e₁' := by
  induction ss generalizing e e' with
  | nil => exact ⟨e, [], e', rfl, rfl, h⟩
  | cons s ss ih =>
    obtain ⟨e₁, out, e₁', hok, hok', next⟩ := h.step r s (limits s List.mem_cons_self)
    obtain ⟨e₂, outs, e₂', more, more', last⟩ :=
      ih next fun x hx => limits x (List.mem_cons_of_mem _ hx)
    exact ⟨e₂, out :: outs, e₂', by simp [Engine.run, hok, more],
      by simp [Engine.run, hok', more'], last⟩

theorem ladders (h : Reflection f ps e e') (r : Reverses f ps) (side : Side) :
    e'.book.ladder side.opposite = (e.book.ladder side).reflected f := by
  have sound := h.sound.book.ladders side
  have image := sound.image (r.carries side (h.priced_side side))
  rw [Ladder.reflected, sound.faces]
  apply (h.sound'.book.ladders side.opposite).unique image
  rw [Ladder.orders_image, h.queues]

theorem find? (h : Reflection f ps e e') (id : OrderId) :
    e'.book.find? id = (e.book.find? id).map (·.reflected f) := by
  rw [h.sound.book.find?, h.sound'.book.find?]
  by_cases present : ∃ o ∈ e.book.orders, o.id = id
  · obtain ⟨o, here, rfl⟩ := present
    rw [find_key_of_mem h.sound.book.ids here]
    exact find_key_of_mem h.sound'.book.ids (h.mem_reflected here)
  · simp only [not_exists, not_and] at present
    have absent : e'.book.orders.find? (·.id == id) = none := by
      rw [List.find?_eq_none]
      intro x hx
      obtain ⟨y, hy, rfl⟩ := List.mem_map.mp (h.orders.mem_iff.mp hx)
      exact fun same => present y hy (beq_iff_eq.mp same)
    rw [absent, eq_comm, Option.map_eq_none_iff, List.find?_eq_none]
    simpa using present

end Reflection
end Engine

theorem summaries_reflected (f : Price → Price) (l : Ladder) (limit : Nat) :
    ((l.reflected f).levels.take limit).map Level.summary =
      ((l.levels.take limit).map Level.summary).map (·.reflected f) := by
  have summary : ∀ l : Level,
      (l.image (·.reflected f) f).summary = l.summary.reflected f := fun l => by
    simp [Level.summary, Level.image, DepthLevel.reflected]
  rw [Ladder.reflected, Ladder.image, ← List.map_take, List.map_map, List.map_map]
  exact List.map_congr_left fun l _ => summary l

/-- The second book has on each side the reflected other side of the first. -/
structure Book.Reflected (f : Price → Price) (b b' : Book) : Prop where
  bids : b'.bids = b.asks.reflected f
  asks : b'.asks = b.bids.reflected f
  found : ∀ id, b'.find? id = (b.find? id).map (·.reflected f)
  depth : ∀ limit now, b'.depth limit now = (b.depth limit now).reflected f

namespace Engine

theorem Reflection.book {f : Price → Price} {ps : List Price} {e e' : Engine}
    (h : Reflection f ps e e') (r : Reverses f ps) : e.book.Reflected f e'.book := by
  have bids : e'.book.bids = e.book.asks.reflected f := h.ladders r .sell
  have asks : e'.book.asks = e.book.bids.reflected f := h.ladders r .buy
  refine ⟨bids, asks, h.find?, fun limit now => ?_⟩
  rw [Book.depth, Depth.capture, bids, asks, summaries_reflected, summaries_reflected]
  rfl

theorem Reflection.new (f : Price → Price) (ps : List Price) : Reflection f ps .new .new where
  sound := sound_new
  sound' := sound_new
  priced := nofun
  queues := by rintro (_ | _) <;> rfl
  nextSequence := rfl
  nextTrade := rfl

/-- Calls of any kind and number, from the start, and the same calls reflected: the outcomes are
reflections of each other one by one, and so are the books. The order of the prices that occur is
all that counts. The counters are the same, and below 2 to the 64th while the calls are modest. -/
theorem run_reflected (f : Price → Price) (ss : List Step)
    (reverses : Reverses f (ss.flatMap Step.prices)) :
    ∃ e outs e', new.run ss = .ok (e, outs) ∧
      new.run (ss.map (·.reflected f)) = .ok (e', outs.map (·.reflected f)) ∧
      e.book.Reflected f e'.book ∧ e'.nextSequence = e.nextSequence ∧
      e'.nextTrade = e.nextTrade ∧ (Modest ss → e.InRange) := by
  obtain ⟨e, outs, e', hok, hok', last⟩ := (Reflection.new f _).run reverses ss
    fun s hs p hp => List.mem_flatMap.mpr ⟨s, hs, hp⟩
  exact ⟨e, outs, e', hok, hok', last.book reverses, last.nextSequence, last.nextTrade,
    run_inRange hok⟩

/-- Two asks that come back and a bid that takes the better one and a part of the other. -/
theorem run_reflected_sweep :
    let two : Price := ⟨⟨false, 2, 0, by decide, Nat.zero_le _⟩, rfl, .inl rfl⟩
    let f : Price → Price := fun p => if p = .one then two else .one
    let far : Order := .new ⟨"far"⟩ .sell two 4 .epoch
    let near : Order := .new ⟨"near"⟩ .sell .one 3 .epoch
    let bid : Order := .new ⟨"bid"⟩ .buy two 5 .epoch
    let m : Moment := ⟨.epoch, .ofNat⟩
    let ss : List Step := [.restore [far, near], .instruct (.submit bid m),
      .instruct (.cancel far.id .epoch), .instruct (.submit { bid with quantity := 0 } m)]
    Reverses f (ss.flatMap Step.prices) ∧
    ∃ e outs e', new.run ss = .ok (e, outs) ∧
      new.run (ss.map (·.reflected f)) = .ok (e', outs.map (·.reflected f)) ∧
      e.book.Reflected f e'.book ∧ e'.nextSequence = e.nextSequence ∧
      e'.nextTrade = e.nextTrade ∧ e.InRange := by
  intro two f far near bid m ss
  have reverses : Reverses f (ss.flatMap Step.prices) := by decide
  obtain ⟨e, outs, e', ran, ran', book, sequence, trade, range⟩ := run_reflected f ss reverses
  exact ⟨reverses, e, outs, e', ran, ran', book, sequence, trade, range (by decide)⟩

end Engine
end Bourse
