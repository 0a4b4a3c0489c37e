import Bourse.Proofs.Engine.Views

/-! Excerpts: an engine that looks like another one some of whose orders are not there. As long as
nobody trades with those, both answer alike and the one stays an excerpt of the other. -/
namespace Bourse

def keeping (keep : OrderId → Bool) (os : List Order) : List Order := os.filter fun o => keep o.id

section Keeping

variable {keep : OrderId → Bool} {o : Order} {os : List Order}

theorem mem_keeping : o ∈ keeping keep os ↔ o ∈ os ∧ keep o.id = true := List.mem_filter

theorem keeping_cons_of_pos (h : keep o.id = true) :
    keeping keep (o :: os) = o :: keeping keep os :=
  List.filter_cons_of_pos h

theorem keeping_cons_of_neg (h : keep o.id = false) : keeping keep (o :: os) = keeping keep os :=
  List.filter_cons_of_neg (by simp [h])

theorem keeping_append (as bs : List Order) :
    keeping keep (as ++ bs) = keeping keep as ++ keeping keep bs :=
  List.filter_append ..

theorem keeping_resting : keeping keep o.resting = if keep o.id then o.resting else [] := by
  unfold Order.resting
  by_cases kept : keep o.id = true <;> split <;> simp_all [keeping]

theorem restingAt_keeping_le (keep : OrderId → Bool) (price : Price) (os : List Order) :
    restingAt price (keeping keep os) ≤ restingAt price os := by
  have parts := restingAt_perm (List.filter_append_perm (fun o => keep o.id) os) price
  rw [restingAt_append] at parts
  exact Nat.le_of_add_right_le (Nat.le_of_eq parts)

end Keeping

section MatchQueue

variable {keep : OrderId → Bool} {m : Moment} {n : Nat} {t : Order} {os : List Order}

theorem matchQueue_stopped
    (h : ∀ o ∈ os, t.quantity = 0 ∨ t.side.crosses t.price o.price = false) :
    matchQueue m n t os = ⟨t, [], os⟩ := by
  cases os with
  | nil => rfl
  | cons o os => rw [matchQueue, if_pos (h o List.mem_cons_self)]

/-- Orders of the queue that do not trade might as well not stand there. -/
theorem matchQueue_keeping (inTurn : os.Pairwise (Order.ahead t.side.opposite))
    (quiet : ∀ f ∈ (matchQueue m n t os).fills, keep f.trade.maker = true) :
    matchQueue m n t (keeping keep os) =
      ⟨(matchQueue m n t os).taker, (matchQueue m n t os).fills,
        keeping keep (matchQueue m n t os).rest⟩ := by
  induction os generalizing n t with
  | nil => rfl
  | cons o os ih =>
    obtain ⟨behind, inTurn'⟩ := List.pairwise_cons.mp inTurn
    by_cases stop : t.quantity = 0 ∨ t.side.crosses t.price o.price = false
    · -- Where it stops for the first it stops for all that stand behind.
      have all : ∀ y ∈ o :: os, t.quantity = 0 ∨ t.side.crosses t.price y.price = false := by
        intro y hy
        rcases stop with spent | apart
        · exact .inl spent
        · rcases List.mem_cons.mp hy with rfl | hy
          · exact .inr apart
          · exact .inr (Order.apart_of_ahead (behind y hy) apart)
      rw [matchQueue_stopped all, matchQueue_stopped fun y hy => all y (mem_keeping.mp hy).1]
    · have kept : keep o.id = true := by
        apply quiet (fillOf m n t o)
        rw [matchQueue, if_neg stop]
        split <;> exact List.mem_cons_self
      rw [keeping_cons_of_pos kept]
      simp only [matchQueue, if_neg stop] at quiet ⊢
      by_cases spent : o.quantity ≤ t.quantity
      · simp only [if_pos spent] at quiet ⊢
        have more := ih (n := n + 1) (t := t.afterTaking (min t.quantity o.quantity) m.now)
          inTurn' fun f hf => quiet f (List.mem_cons_of_mem _ hf)
        rw [more]
      · have left : keep (fillOf m n t o).maker.id = true := kept
        simp only [if_neg spent, keeping_cons_of_pos left]

theorem matchQueue_unfilled (h : (matchQueue m n t os).fills = []) :
    (matchQueue m n t os).rest = os := by
  cases os with
  | nil => rfl
  | cons o os =>
    by_cases stop : t.quantity = 0 ∨ t.side.crosses t.price o.price = false
    · rw [matchQueue, if_pos stop]
    · rw [matchQueue, if_neg stop] at h
      split at h <;> cases h

end MatchQueue

namespace Engine

/-- The first engine, as the first view shows it, is what the second view shows of the second engine
without the orders that are not kept. Their counters for sequences may differ. -/
structure Excerpt (v₀ v : View) (keep : OrderId → Bool) (e₀ e : Engine) : Prop where
  sound₀ : e₀.Sound
  sound : e.Sound
  mono₀ : StrictMono v₀.sequence
  mono : StrictMono v.sequence
  queues : ∀ side, (e₀.book.ladder side).orders.map (·.seen v₀) =
    (keeping keep (e.book.ladder side).orders).map (·.seen v)
  nextTrade : e₀.nextTrade = e.nextTrade

variable {v₀ v : View} {keep : OrderId → Bool} {e₀ e e₀' e' : Engine} {o o₀ : Order}
  {m m₀ : Moment}

namespace Excerpt

theorem orders (h : Excerpt v₀ v keep e₀ e) :
    e₀.book.orders.map (·.seen v₀) = (keeping keep e.book.orders).map (·.seen v) := by
  rw [Book.orders, Book.orders, keeping_append, List.map_append, List.map_append]
  exact congrArg₂ (· ++ ·) (h.queues .buy) (h.queues .sell)

theorem exists_like (h : Excerpt v₀ v keep e₀ e) (here : o ∈ e₀.book.orders) :
    ∃ y ∈ e.book.orders, keep y.id = true ∧ y.seen v = o.seen v₀ := by
  have there := List.mem_map_of_mem (f := (·.seen v₀)) here
  rw [h.orders] at there
  obtain ⟨y, hy, like⟩ := List.mem_map.mp there
  obtain ⟨hy, kept⟩ := mem_keeping.mp hy
  exact ⟨y, hy, kept, like⟩

theorem exists_like₀ (h : Excerpt v₀ v keep e₀ e) (here : o ∈ e.book.orders)
    (kept : keep o.id = true) : ∃ y ∈ e₀.book.orders, y.seen v₀ = o.seen v := by
  have there := List.mem_map_of_mem (f := (·.seen v)) (mem_keeping.mpr ⟨here, kept⟩)
  rw [← h.orders] at there
  exact List.mem_map.mp there

/-- If all are kept, the ladders are alike with all their levels. -/
theorem ladders (h : Excerpt v₀ v keep e₀ e) (all : ∀ o ∈ e.book.orders, keep o.id = true)
    (side : Side) : (e₀.book.ladder side).seen v₀ = (e.book.ladder side).seen v := by
  refine ((h.sound₀.book.ladders side).seen h.mono₀).unique
    ((h.sound.book.ladders side).seen h.mono) (.of_eq ?_)
  have whole : keeping keep (e.book.ladder side).orders = (e.book.ladder side).orders :=
    List.filter_eq_self.mpr fun o ho => all o (Book.mem_of_ladder ho)
  rw [Ladder.orders_seen, Ladder.orders_seen, h.queues, whole]

/-- Queues of like orders are alike, since their order is that of price and sequence. -/
theorem queue_of_perm {side : Side} {l₀ l : Ladder} (mono₀ : StrictMono v₀.sequence)
    (mono : StrictMono v.sequence) (sound₀ : l₀.Sound side) (sound : l.Sound side)
    (perm : (l₀.orders.map (·.seen v₀)).Perm ((keeping keep l.orders).map (·.seen v))) :
    l₀.orders.map (·.seen v₀) = (keeping keep l.orders).map (·.seen v) := by
  have sorted₀ := (sound₀.seen mono₀).pairwise
  have sorted := (sound.seen mono).pairwise
  rw [Ladder.orders_seen] at sorted₀ sorted
  exact eq_of_perm_of_ahead perm sorted₀ (sorted.sublist (List.filter_sublist.map _))

theorem rejection?_none (h : Excerpt v₀ v keep e₀ e) (accepted : e.rejection? o = none) :
    e₀.rejection? o = none := by
  obtain ⟨left, fresh, room⟩ := h.sound.rejection?_none.mp accepted
  refine h.sound₀.rejection?_none.mpr ⟨left, fun y hy => ?_, ?_⟩
  · obtain ⟨z, hz, -, like⟩ := h.exists_like hy
    have same : z.id = y.id := (congrArg Order.id like :)
    exact same ▸ fresh z hz
  · have fewer := restingAt_keeping_le keep o.price (e.book.ladder o.side).orders
    rw [← restingAt_seen v, ← h.queues, restingAt_seen] at fewer
    omega

theorem matched (h : Excerpt v₀ v keep e₀ e)
    (next : v₀.sequence e₀.nextSequence = v.sequence e.nextSequence)
    (alike : m₀.seen v₀ = m.seen v) (brought : v₀.time o.updatedAt = v.time o.updatedAt)
    (quiet : ∀ f ∈ (e.matchOf o m).fills, keep f.trade.maker = true) :
    (e₀.matchOf o m₀).seen v₀ =
      Matched.seen v ⟨(e.matchOf o m).taker, (e.matchOf o m).fills,
        keeping keep (e.matchOf o m).rest⟩ := by
  have taker : (e₀.takerOf o).seen v₀ = (e.takerOf o).seen v := by
    simp only [Order.seen, takerOf, next, brought]
  have inTurn : (e.book.ladder o.side.opposite).orders.Pairwise
      (Order.ahead (e.takerOf o).side.opposite) := (h.sound.book.ladders _).pairwise
  rw [matchOf, matchQueue_seen, h.queues, h.nextTrade, taker, alike, ← matchQueue_seen]
  exact congrArg (Matched.seen v) (matchQueue_keeping inTurn quiet)

/-- The same order comes to both. -/
theorem accepted (h : Excerpt v₀ v keep e₀ e) (kept : keep o.id = true)
    (matched : (e₀.matchOf o m₀).seen v₀ =
      Matched.seen v ⟨(e.matchOf o m).taker, (e.matchOf o m).fills,
        keeping keep (e.matchOf o m).rest⟩)
    (a₀ : Accepted e₀ o (e₀.matchOf o m₀) e₀') (a : Accepted e o (e.matchOf o m) e') :
    Excerpt v₀ v keep e₀' e' where
  sound₀ := a₀.sound
  sound := a.sound
  mono₀ := h.mono₀
  mono := h.mono
  queues := by
    intro side
    apply queue_of_perm h.mono₀ h.mono (a₀.sound.book.ladders _) (a.sound.book.ladders _)
    rcases Side.eq_or_eq_opposite side o.side with rfl | rfl
    · have settled : (e₀.matchOf o m₀).taker.settled.seen v₀ =
          (e.matchOf o m).taker.settled.seen v := congrArg (·.taker.settled) matched
      have mine : keeping keep (e.matchOf o m).taker.settled.resting =
          (e.matchOf o m).taker.settled.resting := by
        obtain ⟨_, _, _, -, same⟩ := e.matchOf_settled o m
        rw [keeping_resting, same]
        exact if_pos kept
      have own := (a.own.filter fun o => keep o.id).map (·.seen v)
      refine (a₀.own.map _).trans (.trans (.of_eq ?_) own.symm)
      change _ = (keeping keep _).map _
      rw [keeping_append, mine, List.map_append, List.map_append, Order.seen_resting,
        Order.seen_resting, settled, h.queues]
    · rw [a₀.queue, a.queue]
      exact .of_eq (congrArg Matched.rest matched)
  nextTrade := by
    have fills := congrArg (fun r => r.fills.length) matched
    simp only [Matched.seen, List.length_map] at fills
    rw [a₀.nextTrade, a.nextTrade, h.nextTrade, fills]

theorem cancelled (h : Excerpt v₀ v keep e₀ e) (like : o₀.seen v₀ = o.seen v)
    (kept : keep o.id = true) (c₀ : Cancelled e₀ o₀ e₀') (c : Cancelled e o e') :
    Excerpt v₀ v keep e₀' e' where
  sound₀ := c₀.sound
  sound := c.sound
  mono₀ := h.mono₀
  mono := h.mono
  queues := by
    have side : o₀.side = o.side := (congrArg Order.side like :)
    intro s
    rcases Side.eq_or_eq_opposite s o.side with rfl | rfl
    · obtain ⟨before₀, after₀, hs₀, hs₀'⟩ := c₀.own
      obtain ⟨before, after, hs, hs'⟩ := c.own
      rw [side] at hs₀ hs₀'
      apply queue_of_perm h.mono₀ h.mono (c₀.sound.book.ladders _) (c.sound.book.ladders _)
      have same := h.queues o.side
      rw [hs₀, hs, keeping_append, keeping_cons_of_pos kept, List.map_append, List.map_append,
        List.map_cons, List.map_cons, like] at same
      rw [hs₀', hs', keeping_append, List.map_append, List.map_append]
      have moved := (List.Perm.of_eq same).trans List.perm_middle
      exact (List.perm_middle.symm.trans moved).cons_inv
    · have other := c₀.other
      rw [side] at other
      rw [other, c.other, h.queues]
  nextTrade := by rw [c₀.nextTrade, c.nextTrade, h.nextTrade]

/-- An order that is not kept comes, and nobody trades with it. -/
theorem joined (h : Excerpt v₀ v keep e₀ e) (dropped : keep o.id = false)
    (quiet : (e.matchOf o m).fills = []) (a : Accepted e o (e.matchOf o m) e') :
    Excerpt v₀ v keep e₀ e' where
  sound₀ := h.sound₀
  sound := a.sound
  mono₀ := h.mono₀
  mono := h.mono
  queues := by
    intro side
    apply queue_of_perm h.mono₀ h.mono (h.sound₀.book.ladders _) (a.sound.book.ladders _)
    rw [h.queues]
    rcases Side.eq_or_eq_opposite side o.side with rfl | rfl
    · have mine : keeping keep (e.matchOf o m).taker.settled.resting = [] := by
        obtain ⟨_, _, _, -, same⟩ := e.matchOf_settled o m
        rw [keeping_resting, same]
        exact if_neg (by simp [dropped])
      have own := a.own.filter fun o => keep o.id
      change (keeping keep _).Perm (keeping keep _) at own
      rw [keeping_append, mine, List.nil_append] at own
      exact (own.map _).symm
    · have rest : (e.matchOf o m).rest = (e.book.ladder o.side.opposite).orders :=
        matchQueue_unfilled quiet
      rw [a.queue, rest]
  nextTrade := by
    rw [a.nextTrade, quiet, h.nextTrade]
    rfl

/-- An order that is not kept goes. -/
theorem left (h : Excerpt v₀ v keep e₀ e) (dropped : keep o.id = false) (c : Cancelled e o e') :
    Excerpt v₀ v keep e₀ e' where
  sound₀ := h.sound₀
  sound := c.sound
  mono₀ := h.mono₀
  mono := h.mono
  queues := by
    intro s
    rw [h.queues]
    rcases Side.eq_or_eq_opposite s o.side with rfl | rfl
    · obtain ⟨before, after, hs, hs'⟩ := c.own
      rw [hs, hs', keeping_append, keeping_append, keeping_cons_of_neg dropped]
    · rw [c.other]
  nextTrade := by rw [c.nextTrade, h.nextTrade]

end Excerpt
end Engine
end Bourse
