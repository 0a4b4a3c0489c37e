import Bourse.Proofs.Engine.Runs

/-! The state of an engine holds each resting order three times over: in the queue of a level, in
the total of that level, and in the index. The three tell the same after every run, and every
resting order has the status that its quantities call for. -/
namespace Bourse

/-- No more is left of the order than there was, and its status tells whether some has traded. -/
structure Order.Live (o : Order) : Prop where
  within : o.quantity ≤ o.size
  status : o.status = o.liveStatus

/-- A call that brings no order of which more is left than there was. -/
def Step.Measured : Step → Prop
  | .restore os => ∀ o ∈ os, o.quantity ≤ o.size
  | _ => True

instance : DecidablePred Step.Measured
  | .restore os => inferInstanceAs (Decidable (∀ o ∈ os, o.quantity ≤ o.size))
  | .instruct _ | .resume _ => .isTrue trivial

theorem Order.Live.afterFill {o : Order} (h : o.Live) {quantity : Nat} (some : 0 < quantity)
    (part : quantity < o.quantity) (now : Instant) : (o.afterFill quantity now).Live where
  within := Nat.le_trans (Nat.sub_le _ _) h.within
  status := by
    have within := h.within
    have left : ¬ o.quantity - quantity = 0 := by omega
    have less : o.quantity - quantity < o.size := by omega
    simp only [Order.afterFill, Order.liveStatus, if_neg left, if_pos less]

/-- What holds of the orders of a queue, and of each after a fill of a part of it, holds of those
that are left of it. -/
theorem matchQueue_rest {P : Order → Prop} {m : Moment} {os : List Order}
    (part : ∀ o ∈ os, ∀ quantity, 0 < quantity → quantity < o.quantity → P o →
      P (o.afterFill quantity m.now))
    (number : Nat) (taker : Order) (h : ∀ o ∈ os, P o) :
    ∀ o ∈ (matchQueue m number taker os).rest, P o := by
  induction os generalizing number taker with
  | nil => exact h
  | cons o os ih =>
    simp only [matchQueue]
    split
    · exact h
    rename_i go
    split
    · exact ih (fun x hx => part x (List.mem_cons_of_mem _ hx)) _ _
        fun x hx => h x (List.mem_cons_of_mem _ hx)
    · rename_i more
      have left : taker.quantity ≠ 0 := fun hz => go (.inl hz)
      have min : min taker.quantity o.quantity = taker.quantity := by omega
      intro x hx
      rcases List.mem_cons.mp hx with rfl | hx
      · simp only [fillOf, min]
        exact part o List.mem_cons_self _ (Nat.pos_of_ne_zero left) (by omega)
          (h o List.mem_cons_self)
      · exact h x (List.mem_cons_of_mem _ hx)

namespace Engine

variable {e e' : Engine} {s : Step} {out : Outcome}

def Lively (e : Engine) : Prop := ∀ o ∈ e.book.orders, o.Live

theorem Accepted.lively {o : Order} {m : Moment} (h : e.Lively)
    (a : Accepted e o (e.matchOf o m) e') : e'.Lively := by
  have perm := Book.orders_perm e.book o.side
  intro x hx
  rcases List.mem_append.mp ((Book.orders_perm e'.book o.side).mem_iff.mp hx) with hx | hx
  · rcases List.mem_append.mp (a.own.mem_iff.mp hx) with hx | hx
    · obtain ⟨same, live⟩ := mem_resting_settled.mp hx
      obtain ⟨quantity, updatedAt, status, less, settled⟩ := e.matchOf_settled o m
      rw [same]
      refine ⟨by rw [settled]; exact less, ?_⟩
      by_cases left : (e.matchOf o m).taker.quantity = 0
      · simp [same, Order.settled, left, Status.isTerminal] at live
      · exact if_neg left
    · exact h x (perm.mem_iff.mpr (List.mem_append_left _ hx))
  · rw [a.queue] at hx
    refine matchQueue_rest (P := Order.Live) ?_ _ _ ?_ x hx
    · exact fun _ _ _ some part live => live.afterFill some part m.now
    · exact fun y hy => h y (perm.mem_iff.mpr (List.mem_append_right _ hy))

theorem Returned.lively {os placed : List Order} (h : e.Lively)
    (measured : ∀ o ∈ os, o.quantity ≤ o.size) (r : Returned e os placed e') : e'.Lively := by
  induction r with
  | nil => exact h
  | skipped _ _ ih => exact ih h fun x hx => measured x (List.mem_cons_of_mem _ hx)
  | @placed e e₁ e' o os placed _ _ one _ ih =>
    refine ih ?_ fun x hx => measured x (List.mem_cons_of_mem _ hx)
    intro x hx
    rcases List.mem_cons.mp (one.orders.mem_iff.mp hx) with rfl | hx
    · exact ⟨measured o List.mem_cons_self, rfl⟩
    · exact h x hx

theorem Effect.lively (h : e.Lively) (measured : s.Measured) (f : Effect e s out e') :
    e'.Lively := by
  cases f with
  | rejected => exact h
  | accepted _ a => exact a.lively h
  | cancelled _ c => exact fun x hx => h x (c.orders.mem_iff.mpr (List.mem_cons_of_mem _ hx))
  | absent => exact h
  | restored r => exact r.lively h fun o ho => measured o ((List.mergeSort_perm _ _).mem_iff.mp ho)
  | resumed => exact h

theorem Ran.lively {ss : List Step} {outs : List Outcome} (h : e.Lively)
    (measured : ∀ s ∈ ss, s.Measured) (r : Ran e ss outs e') : e'.Lively := by
  induction r with
  | nil => exact h
  | cons f _ ih =>
    exact ih (f.lively h (measured _ List.mem_cons_self))
      fun s hs => measured s (List.mem_cons_of_mem _ hs)

/-- Queues, totals and index agree. -/
structure Represented (e : Engine) : Prop where
  /-- Levels stand best price first, one a price. -/
  ordered : ∀ side, (e.book.ladder side).levels.Pairwise
    fun a b => side.better a.price b.price = true
  occupied : ∀ side, ∀ l ∈ (e.book.ladder side).levels, l.queue ≠ []
  totals : ∀ side, ∀ l ∈ (e.book.ladder side).levels,
    l.total = sumOf Order.quantity l.queue ∧ l.total ≤ Text.maxCount
  /-- An order queues on its own side at its own price, and is found there under its sequence. -/
  queued : ∀ side, ∀ l ∈ (e.book.ladder side).levels, ∀ o ∈ l.queue,
    o.side = side ∧ o.price = l.price ∧ l.get? o.sequence = some o
  /-- No order queues at two levels. -/
  once : ∀ side side', ∀ l ∈ (e.book.ladder side).levels, ∀ l' ∈ (e.book.ladder side').levels,
    ∀ o, o ∈ l.queue → o ∈ l'.queue → l = l'
  /-- The index has one entry for each order, with its place. -/
  index : e.book.index.Perm (e.book.orders.map fun o => (o.id, ⟨o.side, o.price, o.sequence⟩))
  ids : (e.book.orders.map (·.id)).Nodup
  find : ∀ id o, e.book.find? id = some o ↔ o ∈ e.book.orders ∧ o.id = id
  size : e.book.size = e.book.orders.length
  live : ∀ o ∈ e.book.orders, 0 < o.quantity ∧ o.quantity ≤ o.size ∧
    o.status = if o.quantity < o.size then .partlyFilled else .opened
  sequences : (e.book.orders.map (·.sequence)).Nodup
  numbered : ∀ o ∈ e.book.orders, o.sequence < e.nextSequence

theorem Sound.represented (h : e.Sound) (live : e.Lively) : e.Represented := by
  have level : ∀ side, ∀ l ∈ (e.book.ladder side).levels, l.Sound side ∧ l.queue ≠ [] :=
    fun side _ hl => (h.book.ladders side).ranked.of_mem hl
  exact
    { ordered := fun side => (h.book.ladders side).ranked.ordered
      occupied := fun side l hl => (level side l hl).2
      totals := fun side l hl => ⟨(level side l hl).1.total, (level side l hl).1.bounded⟩
      queued := by
        intro side l hl o ho
        have sound := (level side l hl).1
        obtain ⟨before, after, split⟩ := List.append_of_mem ho
        exact ⟨(sound.own o ho).1, (sound.own o ho).2, sound.get? split⟩
      once := by
        intro side side' l hl l' hl' o ho ho'
        have own := (level side l hl).1.own o ho
        have own' := (level side' l' hl').1.own o ho'
        have same : side = side' := own.1.symm.trans own'.1
        subst same
        have prices := (h.book.ladders side).ranked.prices
        exact List.inj_on_of_nodup_map prices hl hl' (own.2.symm.trans own'.2)
      index := h.book.index
      ids := h.book.ids
      find := by
        intro id o
        rw [h.book.find? id]
        constructor
        · intro found
          exact ⟨List.mem_of_find?_eq_some found, by simpa using List.find?_some found⟩
        · rintro ⟨here, rfl⟩
          exact find_key_of_mem h.book.ids here
      size := by
        rw [Book.size, h.book.index.length_eq, List.length_map]
      live := fun o ho => ⟨h.book.left ho, (live o ho).within, (live o ho).status⟩
      sequences := h.sequences
      numbered := fun o ho => (h.numbered o ho).2 }

/-- Calls of any kind and number, from the start: none faults, and the state they lead to is told
three times over and each time the same. -/
theorem represented_after_run (ss : List Step) (measured : ∀ s ∈ ss, s.Measured) :
    ∃ e outs, new.run ss = .ok (e, outs) ∧ e.Represented := by
  obtain ⟨e, outs, hok, ran⟩ := sound_new.run ss
  have sound := (ran.advances sound_new).sound
  have live := ran.lively (fun o ho => by cases ho) measured
  exact ⟨e, outs, hok, sound.represented live⟩

/-- Two records of one id, one partly traded, then a sale into what came back of them. -/
theorem represented_after_return :
    let bid : Order := .new ⟨"bid"⟩ .buy .one 5 .epoch
    let ask : Order := .new ⟨"ask"⟩ .sell .one 2 .epoch
    let m : Moment := ⟨.epoch, .ofNat⟩
    ∃ e outs, new.run [.restore [bid, { bid with quantity := 3, sequence := 7 }],
        .instruct (.submit ask m), .instruct (.cancel ask.id .epoch), .resume 4] = .ok (e, outs) ∧
      e.Represented :=
  represented_after_run _ (by decide)

end Engine
end Bourse
