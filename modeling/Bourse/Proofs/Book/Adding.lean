import Bourse.Proofs.Book.Basic

/-! A book by itself, whose callers give orders any sequence they like. An order that cannot rest is
refused, and the book stays as it was; any other goes to the back of its queue if its sequence is
above all those in the queue. If it is not, nobody notices before the level does, and that is a
fault. -/
namespace Bourse

theorem Level.push_late {l : Level} {o last : Order} (price : o.price = l.price)
    (left : 0 < o.quantity) (room : l.total + o.quantity ≤ Text.maxCount)
    (back : l.queue.getLast? = some last) (late : o.sequence ≤ last.sequence) :
    l.push o = .error (.outOfTurn o.sequence o.id last.sequence) := by
  have hold : l.canHold o.quantity = true := decide_eq_true room
  simp [push, price, Nat.ne_of_gt left, hold, back, Nat.not_lt.mpr late]

namespace Ladder

variable {side : Side} {ls : List Level} {l : Ladder} {o last : Order}

theorem Ranked.insertInto_late (h : Ranked side ls) (left : 0 < o.quantity)
    (room : restingAt o.price (queued ls) + o.quantity ≤ Text.maxCount)
    (back : ((queued ls).filter (·.price == o.price)).getLast? = some last)
    (late : o.sequence ≤ last.sequence) :
    Ladder.insertInto side o ls = .error (.outOfTurn o.sequence o.id last.sequence) := by
  induction h with
  | nil => simp at back
  | @cons l ls sound occupied ranked worse ih =>
    have whole := Ranked.cons sound occupied ranked worse
    simp only [Ladder.insertInto]
    by_cases same : l.price = o.price
    · have total := whole.restingAt_head
      obtain ⟨absent, -⟩ | ⟨x, found, -, -, queue⟩ := whole.level o.price
      · simp [same] at absent
      · obtain rfl : l = x := by simpa [same] using found
        rw [same] at total
        rw [total] at room
        rw [queue] at back
        simp [same, Level.push_late same.symm left room back late]
    -- The queue stands further down, so this level has a better price than the order.
    · have none : l.queue.filter (·.price == o.price) = [] :=
        List.filter_eq_nil_iff.mpr fun x hx => by simp [(sound.own x hx).2, same]
      simp only [queued, List.flatMap_cons, List.filter_append, none, List.nil_append] at back
      have behind := worse last (List.mem_filter.mp (List.mem_of_getLast? back)).1
      have price : last.price = o.price := by
        simpa using (List.mem_filter.mp (List.mem_of_getLast? back)).2
      rw [price] at behind
      have inner : restingAt o.price (queued ls) ≤ restingAt o.price (queued (l :: ls)) := by
        simp [restingAt, queued]
      simp [same, Side.better_asymm behind, ih (by omega) back]

theorem Sound.insert_late (h : l.Sound side) (left : 0 < o.quantity)
    (room : restingAt o.price l.orders + o.quantity ≤ Text.maxCount)
    (back : (l.orders.filter (·.price == o.price)).getLast? = some last)
    (late : o.sequence ≤ last.sequence) :
    l.insert o = .error (.outOfTurn o.sequence o.id last.sequence) := by
  rw [Ladder.insert, h.faces, h.ranked.insertInto_late left room back late]
  rfl

end Ladder

namespace Book

/-- What comes of a new book by adding, removing and filling, with no fill above what remains of the
order it fills. A call that is refused or finds nothing leaves a book as it is. -/
inductive Built : Book → Prop where
  | empty : Built .empty
  | added {b b' : Book} {o : Order} : Built b → b.add o = .ok (.ok b') → Built b'
  | removed {b b' : Book} {id : OrderId} {o : Order} : Built b →
      b.remove id = .ok (some (o, b')) → Built b'
  | filled {b b' : Book} {side : Side} {quantity : Nat} {now : Instant} {head o : Order} :
      Built b → b.best side = .ok (some head) → quantity ≤ head.quantity →
      b.fillBest side quantity now = .ok (some (o, b')) → Built b'

def InTurn (b : Book) (o : Order) : Prop := ∀ x ∈ b.ordersAt o.side o.price, x.sequence < o.sequence

/-- The order stands at the back of its queue and is found by its id. Nothing else is different. -/
structure Joined (b : Book) (o : Order) (b' : Book) : Prop where
  queue : b'.ordersAt o.side o.price = b.ordersAt o.side o.price ++ [o]
  others : ∀ side price, (side, price) ≠ (o.side, o.price) →
    b'.ordersAt side price = b.ordersAt side price
  found : b'.find? o.id = some o
  known : ∀ id, id ≠ o.id → b'.find? id = b.find? id

variable {b b' : Book} {o last : Order}

theorem sound_empty : Book.empty.Sound where
  ladders side := by cases side <;> exact Ladder.sound_empty _
  ids := .nil
  index := .nil

theorem Sound.queue_pairwise (h : b.Sound) (side : Side) (price : Price) :
    (b.ordersAt side price).Pairwise fun x y => x.sequence < y.sequence := by
  rw [h.ordersAt]
  refine ((h.ladders side).pairwise.filter _).imp_of_mem fun {x y} hx hy first => ?_
  have same : x.price = y.price := by
    rw [beq_iff_eq.mp (List.mem_filter.mp hx).2, beq_iff_eq.mp (List.mem_filter.mp hy).2]
  obtain better | ⟨-, less⟩ := first
  · rw [same, Side.better_irrefl] at better
    cases better
  · exact less

theorem Sound.not_inTurn (h : b.Sound) : ¬ b.InTurn o ↔
    ∃ last, (b.ordersAt o.side o.price).getLast? = some last ∧ o.sequence ≤ last.sequence := by
  have sorted := h.queue_pairwise o.side o.price
  unfold InTurn
  generalize b.ordersAt o.side o.price = queue at sorted
  constructor
  · intro late
    obtain ⟨x, hx, behind⟩ : ∃ x ∈ queue, o.sequence ≤ x.sequence := by simpa using late
    obtain ⟨front, last, rfl⟩ := (List.eq_nil_or_concat' queue).resolve_left
      (List.ne_nil_of_mem hx)
    refine ⟨last, by simp, ?_⟩
    rcases List.mem_append.mp hx with hx | hx
    · have less := (List.pairwise_append.mp sorted).2.2 x hx last List.mem_cons_self
      omega
    · rwa [← List.mem_singleton.mp hx]
  · rintro ⟨last, back, behind⟩ inTurn
    have less := inTurn last (List.mem_of_getLast? back)
    omega

theorem Sound.add_late (h : b.Sound) (p : b.Placeable o)
    (back : (b.ordersAt o.side o.price).getLast? = some last) (late : o.sequence ≤ last.sequence) :
    b.add o = .error (.outOfTurn o.sequence o.id last.sequence) := by
  rw [h.ordersAt] at back
  simp [Book.add, h.refusal?_none.mpr p, Book.place,
    (h.ladders o.side).insert_late p.left p.room back late]

theorem Sound.find?_of_perm (h : b.Sound) (h' : b'.Sound) (perm : b'.orders.Perm (o :: b.orders))
    {id : OrderId} (other : id ≠ o.id) : b'.find? id = b.find? id := by
  have same : ∀ x, (x ∈ b'.orders ∧ x.id = id) ↔ (x ∈ b.orders ∧ x.id = id) := by
    intro x
    rw [perm.mem_iff, List.mem_cons]
    constructor
    · rintro ⟨rfl | here, rfl⟩
      · exact absurd rfl other
      · exact ⟨here, rfl⟩
    · exact fun ⟨here, same⟩ => ⟨.inr here, same⟩
  rw [h.find?, h'.find?]
  cases found : b.orders.find? (·.id == id) with
  | none =>
    rw [List.find?_eq_none] at found ⊢
    intro x hx is
    have before := (same x).mp ⟨hx, beq_iff_eq.mp is⟩
    exact found x before.1 is
  | some x =>
    have is : x.id = id := by simpa using List.find?_some found
    have after := (same x).mpr ⟨List.mem_of_find?_eq_some found, is⟩
    rw [← is]
    exact find_key_of_mem h'.ids after.1

theorem Sound.joined (h : b.Sound) (p : b.Placeable o) (inTurn : b.InTurn o) :
    ∃ b', b.add o = .ok (.ok b') ∧ b'.Sound ∧ b.Joined o b' := by
  have turn : ∀ x ∈ (b.ladder o.side).orders, x.price = o.price → x.sequence < o.sequence := by
    intro x hx price
    apply inTurn
    rw [h.ordersAt]
    exact List.mem_filter.mpr ⟨hx, beq_iff_eq.mpr price⟩
  obtain ⟨b', added, sound, opposite, ⟨before, after, split, split'⟩, perm⟩ := h.add p turn
  have level (price : Price) : b'.ordersAt o.side price =
      b.ordersAt o.side price ++ [o].filter (·.price == price) := by
    rw [h.ordersAt, sound.ordersAt]
    apply queue_behind _ (sound.ladders _).pairwise (h.ladders _).pairwise
      (List.pairwise_singleton _ _)
    · intro x hx y hy same
      rw [List.mem_singleton.mp hy] at same ⊢
      exact turn x hx same
    · rw [split, split']
      exact List.perm_middle
  refine ⟨b', added, sound, ⟨?_, ?_, ?_, fun id other => h.find?_of_perm sound perm other⟩⟩
  · simp [level]
  · intro side price other
    rcases Side.eq_or_eq_opposite side o.side with rfl | rfl
    · have apart : o.price ≠ price := fun same => other (by rw [same])
      simp [level, apart]
    · rw [h.ordersAt, sound.ordersAt, opposite]
  · rw [sound.find?]
    exact find_key_of_mem sound.ids (perm.mem_iff.mpr List.mem_cons_self)

/-- What comes of adding an order: it is refused, or joins its queue, or is late. -/
theorem Sound.add_cases (h : b.Sound) (o : Order) :
    (∃ r, b.add o = .ok (.error r) ∧ ¬ b.Placeable o) ∨
    (∃ b', b.add o = .ok (.ok b') ∧ b'.Sound ∧ b.Joined o b' ∧ b.Placeable o ∧ b.InTurn o) ∨
    ∃ last, (b.ordersAt o.side o.price).getLast? = some last ∧ o.sequence ≤ last.sequence ∧
      b.Placeable o ∧ b.add o = .error (.outOfTurn o.sequence o.id last.sequence) := by
  by_cases p : b.Placeable o
  · by_cases inTurn : b.InTurn o
    · obtain ⟨b', added, sound, joined⟩ := h.joined p inTurn
      exact .inr (.inl ⟨b', added, sound, joined, p, inTurn⟩)
    · obtain ⟨last, back, late⟩ := h.not_inTurn.mp inTurn
      exact .inr (.inr ⟨last, back, late, p, h.add_late p back late⟩)
  · cases refused : b.refusal? o with
    | none => exact absurd (h.refusal?_none.mp refused) p
    | some r => exact .inl ⟨r, by simp [Book.add, refused], p⟩

theorem Built.sound (built : Built b) : b.Sound := by
  induction built with
  | empty => exact sound_empty
  | @added b b' o _ added h =>
    rcases h.add_cases o with ⟨r, refused, -⟩ | ⟨b'', joins, sound, -⟩ | ⟨last, -, -, -, late⟩
    · rw [added] at refused
      cases refused
    · rw [added] at joins
      cases joins
      exact sound
    · rw [added] at late
      cases late
  | @removed b b' id o _ removed h =>
    by_cases present : ∃ x ∈ b.orders, x.id = id
    · obtain ⟨x, here, rfl⟩ := present
      obtain ⟨b'', removed', sound, -⟩ := h.remove here
      rw [removed] at removed'
      cases removed'
      exact sound
    · rw [h.remove_none (by simpa using present)] at removed
      cases removed
  | @filled b b' side quantity now head o _ best enough filled h =>
    rw [Book.best, (h.ladders side).best] at best
    obtain ⟨rest, orders⟩ := List.head?_eq_some_iff.mp (Except.ok.inj best)
    obtain ⟨b'', filled', sound, -⟩ := h.fillBest orders enough now
    rw [filled] at filled'
    cases filled'
    exact sound

/-- An order joins its queue just if it can rest and is in turn, and is refused just if it cannot
rest. What is left are orders that could rest but are late, and each of them is a fault. -/
theorem added_or_refused_unless_late (built : Built b) (o : Order) :
    ((∃ b', b.add o = .ok (.ok b') ∧ b.Joined o b') ↔ b.Placeable o ∧ b.InTurn o) ∧
    ((∃ r, b.add o = .ok (.error r)) ↔ ¬ b.Placeable o) ∧
    ∀ f, b.add o = .error f ↔ b.Placeable o ∧ ∃ last,
      (b.ordersAt o.side o.price).getLast? = some last ∧ o.sequence ≤ last.sequence ∧
        f = .outOfTurn o.sequence o.id last.sequence := by
  have h := built.sound
  rcases h.add_cases o with ⟨r, refused, cannot⟩ | ⟨b', added, -, joined, p, inTurn⟩ |
    ⟨last, back, late, p, fault⟩
  · simp [refused, cannot]
  · refine ⟨⟨fun _ => ⟨p, inTurn⟩, fun _ => ⟨b', added, joined⟩⟩, by simp [added, p], fun f => ?_⟩
    constructor
    · intro fault
      rw [added] at fault
      cases fault
    · rintro ⟨-, last, back, late, -⟩
      exact absurd inTurn (h.not_inTurn.mpr ⟨last, back, late⟩)
  · have out : ¬ b.InTurn o := h.not_inTurn.mpr ⟨last, back, late⟩
    simp [fault, p, out, back, late, eq_comm]

/-- Behind a bid of sequence 5 one of sequence 6 joins. -/
theorem added_behind_earlier_bid :
    let first : Order := { Order.new ⟨"first"⟩ .buy .one 1 .epoch with sequence := 5 }
    let next : Order := { Order.new ⟨"next"⟩ .buy .one Text.maxCount .epoch with
      quantity := Text.maxCount - 1, sequence := 6 }
    ∃ b, Book.empty.add first = .ok (.ok b) ∧ Built b ∧
      ∃ b', b.add next = .ok (.ok b') ∧ b.Joined next b' ∧
        b'.ordersAt .buy .one = [first, next] := by
  intro first next
  have added : Book.empty.add first = .ok (.ok
      ⟨⟨.buy, [⟨.one, [first], 1⟩]⟩, .empty .sell, [(first.id, first.place)]⟩) := rfl
  have built := Built.added .empty added
  obtain ⟨joins, -⟩ := added_or_refused_unless_late built next
  obtain ⟨b', added', joined⟩ := joins.mpr
    ⟨built.sound.refusal?_none.mp (by decide +kernel), fun x hx => by
      rw [List.mem_singleton.mp hx]
      exact Nat.lt_succ_self 5⟩
  exact ⟨_, added, built, b', added', joined, joined.queue⟩

/-- Behind a bid of sequence 5 one of sequence 3 neither joins nor is refused. -/
theorem late_bid_is_a_fault :
    let first : Order := { Order.new ⟨"first"⟩ .buy .one 1 .epoch with sequence := 5 }
    let late : Order := { Order.new ⟨"late"⟩ .buy .one 1 .epoch with sequence := 3 }
    ∃ b, Book.empty.add first = .ok (.ok b) ∧ b.add late = .error (.outOfTurn 3 ⟨"late"⟩ 5) := by
  intro first late
  refine ⟨⟨⟨.buy, [⟨.one, [first], 1⟩]⟩, .empty .sell, [(first.id, first.place)]⟩, ?_, ?_⟩
  · rfl
  · rfl

end Book
end Bourse
