import Bourse.Book.Ladder
import Bourse.Proofs.Book.Level
import Bourse.Proofs.Market.PriceOrder

/-! What the operations on a ladder do to the list of its orders. A sound ladder is determined by
that list, which stands in the order of priority; so a ladder is known once its orders are. -/
namespace Bourse

/-- The first of two orders of a side has the better price, or the same one and an earlier place. -/
def Order.ahead (side : Side) (a b : Order) : Prop :=
  side.better a.price b.price = true ∨ (a.price = b.price ∧ a.sequence < b.sequence)

theorem Order.ahead_asymm {side : Side} {a b : Order} (h : a.ahead side b) : ¬ b.ahead side a := by
  rintro (hb | ⟨hp, hs⟩)
  · rcases h with ha | ⟨hp, -⟩
    · simp [Side.better_asymm ha] at hb
    · simp [hp, Side.better_irrefl] at hb
  · rcases h with ha | ⟨-, hs'⟩
    · simp [hp, Side.better_irrefl] at ha
    · omega

theorem Order.ahead_irrefl (side : Side) (a : Order) : ¬ a.ahead side a :=
  fun h => ahead_asymm h h

/-- Behind an order that a limit does not cross there is none that it does. -/
theorem Order.apart_of_ahead {side : Side} {limit : Price} {a b : Order}
    (ahead : a.ahead side.opposite b) (apart : side.crosses limit a.price = false) :
    side.crosses limit b.price = false := by
  rcases ahead with better | ⟨same, -⟩
  · by_contra meets
    have crosses := Side.crosses_of_better (Bool.not_eq_false _ ▸ meets) better
    rw [apart] at crosses
    cases crosses
  · rw [← same]
    exact apart

/-- Priority puts any collection of orders into one sequence. -/
theorem eq_of_perm_of_ahead {side : Side} {as bs : List Order} (h : as.Perm bs)
    (ha : as.Pairwise (Order.ahead side)) (hb : bs.Pairwise (Order.ahead side)) : as = bs :=
  h.eq_of_pairwise (fun _ _ _ _ hab hba => absurd hba (Order.ahead_asymm hab)) ha hb

/-- Orders that come behind those of their price in sequence queue behind them at every price. -/
theorem queue_behind {side : Side} {os os' more : List Order} (perm : os'.Perm (more ++ os))
    (sorted' : os'.Pairwise (Order.ahead side)) (sorted : os.Pairwise (Order.ahead side))
    (inTurn : more.Pairwise fun a b => a.sequence < b.sequence)
    (last : ∀ x ∈ os, ∀ y ∈ more, x.price = y.price → x.sequence < y.sequence) (price : Price) :
    os'.filter (·.price == price) =
      os.filter (·.price == price) ++ more.filter (·.price == price) := by
  have level := perm.filter (·.price == price)
  rw [List.filter_append] at level
  have priced {xs : List Order} {x : Order} (hx : x ∈ xs.filter (·.price == price)) :
      x.price = price := beq_iff_eq.mp (List.mem_filter.mp hx).2
  refine eq_of_perm_of_ahead (level.trans List.perm_append_comm) (sorted'.filter _)
    (List.pairwise_append.mpr ⟨sorted.filter _, ?_, fun x hx y hy => .inr ⟨?_, ?_⟩⟩)
  · refine (inTurn.filter _).imp_of_mem fun ha hb less => .inr ⟨?_, less⟩
    rw [priced ha, priced hb]
  · rw [priced hx, priced hy]
  · exact last x (List.mem_filter.mp hx).1 y (List.mem_filter.mp hy).1
      ((priced hx).trans (priced hy).symm)

def restingAt (price : Price) (os : List Order) : Nat :=
  sumOf Order.quantity (os.filter (·.price == price))

theorem restingAt_perm {as bs : List Order} (h : as.Perm bs) (price : Price) :
    restingAt price as = restingAt price bs :=
  sumOf_perm _ (h.filter _)

theorem restingAt_cons (o : Order) (os : List Order) :
    restingAt o.price (o :: os) = o.quantity + restingAt o.price os := by
  simp [restingAt]

theorem restingAt_append (price : Price) (as bs : List Order) :
    restingAt price (as ++ bs) = restingAt price as + restingAt price bs := by
  simp [restingAt]

namespace Ladder

abbrev queued (ls : List Level) : List Order := ls.flatMap (·.queue)

/-- Sound levels of one side, best price first, of which none is empty. -/
inductive Ranked (side : Side) : List Level → Prop where
  | nil : Ranked side []
  | cons {l : Level} {ls : List Level} : l.Sound side → l.queue ≠ [] → Ranked side ls →
      (∀ o ∈ queued ls, side.better l.price o.price = true) → Ranked side (l :: ls)

structure Sound (side : Side) (l : Ladder) : Prop where
  faces : l.side = side
  ranked : Ranked side l.levels

variable {side : Side} {ls : List Level} {o : Order}

theorem Ranked.own (h : Ranked side ls) : ∀ o ∈ queued ls, o.side = side ∧ 0 < o.quantity := by
  induction h with
  | nil => simp
  | cons sound _ _ _ ih =>
    intro o ho
    rcases List.mem_append.mp ho with ho | ho
    · exact ⟨(sound.own o ho).1, sound.left o ho⟩
    · exact ih o ho

theorem Ranked.pairwise (h : Ranked side ls) : (queued ls).Pairwise (Order.ahead side) := by
  induction h with
  | nil => exact .nil
  | @cons l ls sound _ _ worse ih =>
    refine List.pairwise_append.mpr ⟨?_, ih, ?_⟩
    · refine sound.inTurn.imp_of_mem fun {a b} ha hb hab => .inr ⟨?_, hab⟩
      rw [(sound.own a ha).2, (sound.own b hb).2]
    · intro a ha b hb
      exact .inl ((sound.own a ha).2 ▸ worse b hb)

theorem Ranked.of_mem (h : Ranked side ls) {l : Level} (here : l ∈ ls) :
    l.Sound side ∧ l.queue ≠ [] := by
  induction h with
  | nil => cases here
  | cons sound occupied _ _ ih =>
    rcases List.mem_cons.mp here with rfl | here
    · exact ⟨sound, occupied⟩
    · exact ih here

theorem Ranked.ordered (h : Ranked side ls) :
    ls.Pairwise fun a b => side.better a.price b.price = true := by
  induction h with
  | nil => exact .nil
  | @cons l ls sound _ ranked worse ih =>
    refine List.pairwise_cons.mpr ⟨fun b hb => ?_, ih⟩
    obtain ⟨sound', occupied⟩ := ranked.of_mem hb
    obtain ⟨o, os, hq⟩ := List.exists_cons_of_ne_nil occupied
    have here : o ∈ b.queue := hq ▸ List.mem_cons_self
    rw [← (sound'.own o here).2]
    exact worse o (List.mem_flatMap.mpr ⟨b, hb, here⟩)

theorem Ranked.prices (h : Ranked side ls) : (ls.map (·.price)).Nodup := by
  refine List.pairwise_map.mpr (h.ordered.imp fun {a b} better same => ?_)
  simp [same, Side.better_irrefl] at better

theorem Ranked.keep {l : Level} (sound : l.Sound side) (h : Ranked side ls)
    (worse : ∀ o ∈ queued ls, side.better l.price o.price = true) :
    Ranked side (Ladder.keep l ls) := by
  unfold Ladder.keep
  split
  · exact h
  · rename_i occupied
    exact .cons sound (by simpa using occupied) h worse

theorem queued_keep (l : Level) (ls : List Level) :
    queued (Ladder.keep l ls) = l.queue ++ queued ls := by
  unfold Ladder.keep
  split
  · rename_i gone
    simp [List.isEmpty_iff.mp gone]
  · rfl

/-- The orders of one price are the queue of the one level of that price, if there is one. -/
theorem Ranked.level (h : Ranked side ls) (price : Price) :
    (ls.find? (·.price == price) = none ∧ (queued ls).filter (·.price == price) = []) ∨
    (∃ l, ls.find? (·.price == price) = some l ∧ l.price = price ∧ l.Sound side ∧
      (queued ls).filter (·.price == price) = l.queue) := by
  induction h with
  | nil => exact .inl ⟨rfl, rfl⟩
  | @cons l ls sound _ ranked worse ih =>
    simp only [queued, List.flatMap_cons, List.filter_append] at ih ⊢
    by_cases same : l.price = price
    · refine .inr ⟨l, by simp [same], same, sound, ?_⟩
      have all : l.queue.filter (·.price == price) = l.queue :=
        List.filter_eq_self.mpr fun o ho => by simp [(sound.own o ho).2, same]
      have others : (queued ls).filter (·.price == price) = [] := by
        apply List.filter_eq_nil_iff.mpr
        intro o ho he
        have hw := worse o ho
        simp [same, beq_iff_eq.mp he, Side.better_irrefl] at hw
      rw [all, others, List.append_nil]
    · have none : l.queue.filter (·.price == price) = [] :=
        List.filter_eq_nil_iff.mpr fun o ho => by simp [(sound.own o ho).2, same]
      rw [none, List.nil_append, List.find?_cons_of_neg (by simpa using same)]
      exact ih

theorem Ranked.restingAt_head {l : Level} (h : Ranked side (l :: ls)) :
    restingAt l.price (queued (l :: ls)) = l.total := by
  rcases h.level l.price with ⟨absent, -⟩ | ⟨x, found, -, sound, queue⟩
  · simp at absent
  · have same : x = l := by simpa using found.symm
    rw [restingAt, queue, ← sound.total, same]

theorem Ranked.total (h : Ranked side ls) :
    sumOf Level.total ls = sumOf Order.quantity (queued ls) := by
  induction h with
  | nil => rfl
  | cons sound _ _ _ ih =>
    rw [sumOf_cons, queued, List.flatMap_cons, sumOf_append, ih, sound.total]

theorem Ranked.insertInto (h : Ranked side ls) (own : o.side = side) (left : 0 < o.quantity)
    (room : restingAt o.price (queued ls) + o.quantity ≤ Text.maxCount)
    (turn : ∀ x ∈ queued ls, x.price = o.price → x.sequence < o.sequence) :
    ∃ ls', Ladder.insertInto side o ls = .ok ls' ∧ Ranked side ls' ∧
      ∃ before after, queued ls = before ++ after ∧ queued ls' = before ++ o :: after := by
  obtain ⟨fresh, single⟩ := Level.push_empty own left (by omega)
  induction h with
  | nil =>
    refine ⟨_, by simp [Ladder.insertInto, fresh], .cons single (by simp) .nil (by simp),
      [], [], rfl, rfl⟩
  | @cons l ls sound occupied ranked worse ih =>
    simp only [Ladder.insertInto]
    by_cases same : l.price = o.price
    · have whole := Ranked.cons sound occupied ranked worse
      have room' : l.total + o.quantity ≤ Text.maxCount := by
        rw [← whole.restingAt_head, same]
        exact room
      have turn' : ∀ x ∈ l.queue, x.sequence < o.sequence := fun x hx =>
        turn x (List.mem_append_left _ hx) ((sound.own x hx).2.trans same)
      refine ⟨_, by simp [same, Level.push_eq same.symm left room' turn'],
        .cons (sound.push own same.symm left room' turn') (by simp) ranked worse,
        l.queue, queued ls, rfl, by simp [queued]⟩
    -- At another price the order makes a level of its own here, or goes further down.
    · by_cases front : side.better o.price l.price = true
      · refine ⟨_, by simp [same, front, fresh],
          .cons single (by simp) (.cons sound occupied ranked worse) ?_, [], _, rfl, rfl⟩
        intro x hx
        rcases List.mem_append.mp hx with hx | hx
        · rw [(sound.own x hx).2]; exact front
        · exact Side.better_trans front (worse x hx)
      · have inner : restingAt o.price (queued ls) ≤ restingAt o.price (queued (l :: ls)) := by
          simp [restingAt, queued]
        obtain ⟨ls', hok, ranked', before, after, hs, hs'⟩ := ih (by omega)
          fun x hx hp => turn x (List.mem_append_right _ hx) hp
        refine ⟨l :: ls', by simp [same, front, hok], .cons sound occupied ranked' ?_,
          l.queue ++ before, after, by simp [queued] at hs ⊢; exact hs,
          by simp [queued] at hs' ⊢; exact hs'⟩
        have back : side.better l.price o.price = true :=
          Side.better_total (fun h => same h.symm) (by simpa using front)
        intro x hx
        rw [hs'] at hx
        rcases List.mem_append.mp hx with hx | hx
        · exact worse x (hs ▸ List.mem_append_left _ hx)
        · rcases List.mem_cons.mp hx with rfl | hx
          · exact back
          · exact worse x (hs ▸ List.mem_append_right _ hx)

/-- An order leaves from wherever it stands; the others stay as they are. -/
theorem Ranked.removeFrom (h : Ranked side ls) (here : o ∈ queued ls) :
    ∃ ls', Ladder.removeFrom o.price o.sequence ls = .ok (some (o, ls')) ∧ Ranked side ls' ∧
      ∃ before after, queued ls = before ++ o :: after ∧ queued ls' = before ++ after := by
  induction h with
  | nil => simp at here
  | @cons l ls sound occupied ranked worse ih =>
    simp only [Ladder.removeFrom]
    by_cases same : l.price = o.price
    · have mine : o ∈ l.queue := by
        apply (List.mem_append.mp here).resolve_right
        intro ho
        have hw := worse o ho
        simp [same, Side.better_irrefl] at hw
      obtain ⟨before, after, split⟩ := List.append_of_mem mine
      obtain ⟨l', hok, sound', price', queue'⟩ := sound.remove split
      refine ⟨Ladder.keep l' ls, by simp [same, hok], ranked.keep sound' (price' ▸ worse),
        before, after ++ queued ls, by simp [queued, split], by simp [queued_keep, queue']⟩
    · have other : o ∈ queued ls :=
        (List.mem_append.mp here).resolve_left fun ho => same (sound.own o ho).2.symm
      obtain ⟨ls', hok, ranked', before, after, hs, hs'⟩ := ih other
      refine ⟨l :: ls', by simp [same, hok], .cons sound occupied ranked' ?_, l.queue ++ before,
        after, by simp [queued] at hs ⊢; exact hs, by simp [queued] at hs' ⊢; exact hs'⟩
      intro x hx
      apply worse x
      rw [hs'] at hx
      rw [hs]
      rcases List.mem_append.mp hx with hx | hx
      · exact List.mem_append_left _ hx
      · exact List.mem_append_right _ (List.mem_cons_of_mem _ hx)

theorem Ranked.unique (h : Ranked side ls) {ls' : List Level} (h' : Ranked side ls')
    (same : queued ls = queued ls') : ls = ls' := by
  induction h generalizing ls' with
  | nil =>
    cases h' with
    | nil => rfl
    | cons _ occupied' => exact absurd (List.append_eq_nil_iff.mp same.symm).1 occupied'
  | @cons l ls sound occupied ranked worse ih =>
    cases h' with
    | nil => exact absurd (List.append_eq_nil_iff.mp same).1 occupied
    | @cons l' ls' sound' occupied' ranked' worse' =>
      have price : l.price = l'.price := by
        obtain ⟨o, os, hq⟩ := List.exists_cons_of_ne_nil occupied
        obtain ⟨o', os', hq'⟩ := List.exists_cons_of_ne_nil occupied'
        have head : o = o' := by simpa [queued, hq, hq'] using congrArg List.head? same
        rw [← (sound.own o (by simp [hq])).2, ← (sound'.own o' (by simp [hq'])).2, head]
      have queue : l.queue = l'.queue := by
        have at_price := (Ranked.cons sound occupied ranked worse).level l.price
        have at_price' := (Ranked.cons sound' occupied' ranked' worse').level l.price
        simp only [List.find?_cons, price, beq_self_eq_true, reduceCtorEq, false_and, false_or,
          Option.some.injEq] at at_price at_price'
        obtain ⟨_, rfl, -, -, hq⟩ := at_price
        obtain ⟨_, rfl, -, -, hq'⟩ := at_price'
        rw [← hq, ← hq', same]
      have total : l.total = l'.total := by rw [sound.total, sound'.total, queue]
      have head : l = l' := by
        cases l; cases l'
        simp only at price queue total
        rw [price, queue, total]
      rw [head, ih ranked' (by simpa [queued, queue] using same)]

variable {l l' : Ladder} {rest : List Order}

theorem sound_empty (side : Side) : (empty side).Sound side := ⟨rfl, .nil⟩

theorem Sound.own (h : l.Sound side) : ∀ o ∈ l.orders, o.side = side ∧ 0 < o.quantity :=
  h.ranked.own

theorem Sound.pairwise (h : l.Sound side) : l.orders.Pairwise (Order.ahead side) :=
  h.ranked.pairwise

/-- A sound ladder is nothing but the collection of its orders. -/
theorem Sound.unique (h : l.Sound side) (h' : l'.Sound side) (same : l.orders.Perm l'.orders) :
    l = l' := by
  have orders := eq_of_perm_of_ahead same h.pairwise h'.pairwise
  obtain ⟨s, ls⟩ := l
  obtain ⟨s', ls'⟩ := l'
  have hs : s = s' := h.faces.trans h'.faces.symm
  have hl : ls = ls' := h.ranked.unique h'.ranked orders
  rw [hs, hl]

theorem Sound.total (h : l.Sound side) (price : Price) :
    ((l.level? price).map (·.total)).getD 0 = restingAt price l.orders := by
  rcases h.ranked.level price with ⟨hn, hq⟩ | ⟨x, hx, -, sound, hq⟩
  · simp only [level?, hn, restingAt, Ladder.orders, hq]; rfl
  · simp only [level?, hx, restingAt, Ladder.orders, hq]; exact sound.total

theorem Sound.ordersAt (h : l.Sound side) (price : Price) :
    ((l.level? price).map (·.queue)).getD [] = l.orders.filter (·.price == price) := by
  rcases h.ranked.level price with ⟨none, queue⟩ | ⟨x, found, -, -, queue⟩
  · rw [level?, none, Ladder.orders, queue]
    rfl
  · rw [level?, found, Ladder.orders, queue]
    rfl

/-- There is a level at a price just if something rests there. -/
theorem Sound.volume (h : l.Sound side) (price : Price) : (l.level? price).map (·.total) =
    if restingAt price l.orders = 0 then none else some (restingAt price l.orders) := by
  have total := h.total price
  rcases h.ranked.level price with ⟨absent, queue⟩ | ⟨x, found, -, sound, -⟩
  · rw [restingAt, Ladder.orders, queue, sumOf_nil, if_pos rfl]
    exact congrArg (Option.map (·.total)) absent
  · obtain ⟨o, os, head⟩ := List.exists_cons_of_ne_nil
      (h.ranked.of_mem (List.mem_of_find?_eq_some found)).2
    have positive : 0 < x.total := by
      have left := sound.left o (head ▸ List.mem_cons_self)
      rw [sound.total, head, sumOf_cons]
      omega
    have level : l.level? price = some x := found
    rw [level] at total ⊢
    rw [← total]
    exact (if_neg (Nat.ne_of_gt positive)).symm

theorem Sound.restingAt_le (h : l.Sound side) (price : Price) :
    restingAt price l.orders ≤ Text.maxCount := by
  rcases h.ranked.level price with ⟨-, hq⟩ | ⟨x, -, -, sound, hq⟩
  · rw [restingAt, Ladder.orders, hq]
    exact Nat.zero_le _
  · rw [restingAt, Ladder.orders, hq, ← sound.total]
    exact sound.bounded

/-- What a level can hold is a matter of what rests at its price. -/
theorem Sound.canHold (h : l.Sound side) (price : Price) (quantity : Nat) :
    ((l.level? price).getD (.empty price)).canHold quantity =
      decide (restingAt price l.orders + quantity ≤ Text.maxCount) := by
  rw [← h.total price]
  cases l.level? price <;> rfl

theorem Sound.insert (h : l.Sound side) (own : o.side = side) (left : 0 < o.quantity)
    (room : restingAt o.price l.orders + o.quantity ≤ Text.maxCount)
    (turn : ∀ x ∈ l.orders, x.price = o.price → x.sequence < o.sequence) :
    ∃ l', l.insert o = .ok l' ∧ l'.Sound side ∧
      ∃ before after, l.orders = before ++ after ∧ l'.orders = before ++ o :: after := by
  obtain ⟨ls, hok, ranked, before, after, hs, hs'⟩ := h.ranked.insertInto own left room turn
  exact ⟨{ l with levels := ls }, by simp [Ladder.insert, h.faces, hok], ⟨h.faces, ranked⟩,
    before, after, hs, hs'⟩

theorem Sound.remove (h : l.Sound side) (here : o ∈ l.orders) :
    ∃ l', l.remove o.price o.sequence = .ok (some (o, l')) ∧ l'.Sound side ∧
      ∃ before after, l.orders = before ++ o :: after ∧ l'.orders = before ++ after := by
  obtain ⟨ls, hok, ranked, before, after, hs, hs'⟩ := h.ranked.removeFrom here
  exact ⟨{ l with levels := ls }, by simp [Ladder.remove, hok], ⟨h.faces, ranked⟩, before, after,
    hs, hs'⟩

theorem Sound.get? (h : l.Sound side) (here : o ∈ l.orders) :
    l.get? o.price o.sequence = some o := by
  have mine : o ∈ l.orders.filter (·.price == o.price) := by simp [here]
  rcases h.ranked.level o.price with ⟨-, hq⟩ | ⟨x, hx, -, sound, hq⟩
  · simp [Ladder.orders, hq] at mine
  · rw [Ladder.orders, hq] at mine
    obtain ⟨before, after, split⟩ := List.append_of_mem mine
    simp only [Ladder.get?, level?, hx, Option.bind_some, sound.get? split]

theorem Sound.bestLevel (h : l.Sound side) : l.bestLevel = .ok l.levels.head? := by
  rcases h with ⟨-, ranked⟩
  unfold Ladder.bestLevel
  cases hl : l.levels with
  | nil => rfl
  | cons top others =>
    rw [hl] at ranked
    cases ranked with
    | cons _ occupied => simp [occupied]

theorem Sound.bestPrice (h : l.Sound side) :
    l.bestPrice = .ok (l.orders.head?.map (·.price)) := by
  rw [Ladder.bestPrice, h.bestLevel]
  rcases h with ⟨-, ranked⟩
  unfold Ladder.orders
  cases hl : l.levels with
  | nil => rfl
  | cons top others =>
    rw [hl] at ranked
    cases ranked with
    | cons sound occupied =>
      obtain ⟨o, os, hq⟩ := List.exists_cons_of_ne_nil occupied
      have price : o.price = top.price := (sound.own o (hq ▸ List.mem_cons_self)).2
      simp [hq, price]

/-- The next order to trade is the first of all. -/
theorem Sound.best (h : l.Sound side) : l.best = .ok l.orders.head? := by
  have own := h.own
  simp only [Ladder.best, h.bestLevel, ok_bind]
  rcases h with ⟨-, ranked⟩
  unfold Ladder.orders at own ⊢
  cases hl : l.levels with
  | nil => rfl
  | cons top others =>
    rw [hl] at ranked own
    cases ranked with
    | cons _ occupied =>
      obtain ⟨o, os, hq⟩ := List.exists_cons_of_ne_nil occupied
      have left := (own o (by simp [hq])).2
      simp [Level.front?, hq, Nat.ne_of_gt left]

theorem Sound.fillBest (h : l.Sound side) (head : l.orders = o :: rest) {quantity : Nat}
    (enough : quantity ≤ o.quantity) (now : Instant) :
    ∃ l', l.fillBest quantity now = .ok (some (o.afterFill quantity now, l')) ∧ l'.Sound side ∧
      l'.orders = fillHead o quantity now rest := by
  simp only [Ladder.fillBest, h.bestLevel, ok_bind]
  rcases h with ⟨faces, ranked⟩
  unfold Ladder.orders at head
  cases hl : l.levels with
  | nil => simp [hl] at head
  | cons top others =>
    rw [hl] at ranked head
    cases ranked with
    | cons sound occupied ranked worse =>
      obtain ⟨o', os, hq⟩ := List.exists_cons_of_ne_nil occupied
      obtain ⟨rfl, rfl⟩ : o' = o ∧ os ++ queued others = rest := by simpa [hq] using head
      obtain ⟨top', hok, sound', price', queue'⟩ := sound.fillFront hq enough now
      refine ⟨{ l with levels := Ladder.keep top' others }, by simp [hok],
        ⟨faces, ranked.keep sound' (price' ▸ worse)⟩, ?_⟩
      simp only [Ladder.orders, queued_keep, queue', fillHead]
      split <;> rfl

theorem orderCount_eq (l : Ladder) : l.orderCount = l.orders.length := by
  unfold Ladder.orderCount Ladder.orders
  induction l.levels with
  | nil => rfl
  | cons x xs ih => simp [ih]

end Ladder
end Bourse
