import Bourse.Book.Level
import Bourse.Sum

/-! What the operations on a level do to its queue. They are stated for sound levels, and each keeps
the level sound: the orders are the level's own, they stand in the order of their sequences, and the
total is the sum of what remains of them. -/
namespace Bourse

@[simp] theorem ok_bind {ε α β : Type} (a : α) (f : α → Except ε β) :
    ((.ok a : Except ε α) >>= f) = f a := rfl

@[simp] theorem error_bind {ε α β : Type} (e : ε) (f : α → Except ε β) :
    ((.error e : Except ε α) >>= f) = .error e := rfl

@[simp] theorem pure_eq_ok {ε α : Type} (a : α) : (pure a : Except ε α) = .ok a := rfl

def Order.afterFill (o : Order) (quantity : Nat) (now : Instant) : Order :=
  { o with
    quantity := o.quantity - quantity
    updatedAt := now
    status := if o.quantity - quantity = 0 then .filled else .partlyFilled }

namespace Order

variable (o : Order) (quantity : Nat) (now : Instant)

@[simp] theorem afterFill_id : (o.afterFill quantity now).id = o.id := rfl
@[simp] theorem afterFill_price : (o.afterFill quantity now).price = o.price := rfl
@[simp] theorem afterFill_sequence : (o.afterFill quantity now).sequence = o.sequence := rfl
@[simp] theorem afterFill_quantity :
    (o.afterFill quantity now).quantity = o.quantity - quantity := rfl

end Order

/-- A queue after a fill of its head. What remains of the head keeps its place. -/
def fillHead (o : Order) (quantity : Nat) (now : Instant) (rest : List Order) : List Order :=
  if o.quantity - quantity = 0 then rest else o.afterFill quantity now :: rest

section FillHead

variable {o x : Order} {quantity : Nat} {now : Instant} {rest : List Order}

theorem mem_fillHead : x ∈ fillHead o quantity now rest ↔
    (x = o.afterFill quantity now ∧ 0 < o.quantity - quantity) ∨ x ∈ rest := by
  unfold fillHead
  split
  · rename_i spent
    simp [spent]
  · rename_i spent
    simp [Nat.pos_of_ne_zero spent]

theorem sumOf_fillHead : sumOf Order.quantity (fillHead o quantity now rest) =
    o.quantity - quantity + sumOf Order.quantity rest := by
  unfold fillHead
  split
  · rename_i spent
    rw [spent, Nat.zero_add]
  · rfl

theorem pairwise_fillHead {r : Order → Order → Prop}
    (same : ∀ y, r o y → r (o.afterFill quantity now) y) (h : (o :: rest).Pairwise r) :
    (fillHead o quantity now rest).Pairwise r := by
  have parts := List.pairwise_cons.mp h
  unfold fillHead
  split
  · exact parts.2
  · exact List.pairwise_cons.mpr ⟨fun y hy => same y (parts.1 y hy), parts.2⟩

end FillHead

namespace Level

structure Sound (side : Side) (l : Level) : Prop where
  own : ∀ o ∈ l.queue, o.side = side ∧ o.price = l.price
  left : ∀ o ∈ l.queue, 0 < o.quantity
  inTurn : l.queue.Pairwise fun a b => a.sequence < b.sequence
  total : l.total = sumOf Order.quantity l.queue
  bounded : l.total ≤ Text.maxCount

variable {side : Side} {l : Level} {o : Order}

theorem sound_empty (side : Side) (price : Price) : (empty price).Sound side where
  own := by simp [empty]
  left := by simp [empty]
  inTurn := .nil
  total := rfl
  bounded := Nat.zero_le _

theorem push_eq (price : o.price = l.price) (left : 0 < o.quantity)
    (room : l.total + o.quantity ≤ Text.maxCount) (turn : ∀ x ∈ l.queue, x.sequence < o.sequence) :
    l.push o = .ok { l with queue := l.queue ++ [o], total := l.total + o.quantity } := by
  have hold : l.canHold o.quantity = true := decide_eq_true room
  simp only [push, price, ne_eq, not_true_eq_false, if_false, Nat.ne_of_gt left, hold,
    Bool.not_true, Bool.false_eq_true]
  cases h : l.queue.getLast? with
  | none => simp [List.getLast?_eq_none_iff.mp h]
  | some last => simp [turn last (List.mem_of_getLast? h)]

theorem Sound.push (h : l.Sound side) (own : o.side = side) (price : o.price = l.price)
    (left : 0 < o.quantity) (room : l.total + o.quantity ≤ Text.maxCount)
    (turn : ∀ x ∈ l.queue, x.sequence < o.sequence) :
    Sound side { l with queue := l.queue ++ [o], total := l.total + o.quantity } where
  own x hx := by
    rcases List.mem_append.mp hx with hx | hx
    · exact h.own x hx
    · rw [List.mem_singleton.mp hx]; exact ⟨own, price⟩
  left x hx := by
    rcases List.mem_append.mp hx with hx | hx
    · exact h.left x hx
    · rw [List.mem_singleton.mp hx]; exact left
  inTurn := by
    refine List.pairwise_append.mpr ⟨h.inTurn, List.pairwise_singleton _ _, ?_⟩
    intro a ha b hb
    rw [List.mem_singleton.mp hb]
    exact turn a ha
  total := by simp [h.total]
  bounded := room

/-- A new level starts with its one order. -/
theorem push_empty (own : o.side = side) (left : 0 < o.quantity)
    (room : o.quantity ≤ Text.maxCount) :
    (empty o.price).push o = .ok { price := o.price, queue := [o], total := o.quantity } ∧
      Sound side { price := o.price, queue := [o], total := o.quantity } := by
  have room' : (empty o.price).total + o.quantity ≤ Text.maxCount := by
    simp only [empty]
    omega
  have turn : ∀ x ∈ (empty o.price).queue, x.sequence < o.sequence := by simp [empty]
  have sound := (sound_empty side o.price).push own rfl left room' turn
  rw [push_eq rfl left room' turn]
  simp only [empty, List.nil_append, Nat.zero_add] at sound ⊢
  exact ⟨trivial, sound⟩

theorem Sound.le_total (h : l.Sound side) {before after : List Order}
    (split : l.queue = before ++ o :: after) : o.quantity ≤ l.total := by
  rw [h.total, split, sumOf_append, sumOf_cons]
  omega

theorem Sound.fillFront {rest : List Order} (h : l.Sound side) (head : l.queue = o :: rest)
    {quantity : Nat} (enough : quantity ≤ o.quantity) (now : Instant) :
    ∃ l', l.fillFront quantity now = .ok (some (o.afterFill quantity now, l')) ∧
      l'.Sound side ∧ l'.price = l.price ∧ l'.queue = fillHead o quantity now rest := by
  have first : l.queue = [] ++ o :: rest := head
  have hle : quantity ≤ l.total := Nat.le_trans enough (h.le_total first)
  have own := head ▸ h.own
  have left := head ▸ h.left
  have total : l.total = o.quantity + sumOf Order.quantity rest := by rw [h.total, head]; rfl
  refine ⟨{ l with queue := fillHead o quantity now rest, total := l.total - quantity }, ?_, ?_,
    rfl, rfl⟩
  · simp only [Level.fillFront, head, Order.fill, if_pos enough, ok_bind, less, if_pos hle]
    by_cases spent : o.quantity - quantity = 0 <;> simp [spent, fillHead, Order.afterFill]
  · exact
      { own := by
          intro x hx
          rcases mem_fillHead.mp hx with ⟨rfl, -⟩ | hx
          · exact own o List.mem_cons_self
          · exact own x (List.mem_cons_of_mem _ hx)
        left := by
          intro x hx
          rcases mem_fillHead.mp hx with ⟨rfl, more⟩ | hx
          · exact more
          · exact left x (List.mem_cons_of_mem _ hx)
        inTurn := pairwise_fillHead (fun _ hy => hy) (head ▸ h.inTurn)
        total := by simp only [sumOf_fillHead, total]; omega
        bounded := Nat.le_trans (Nat.sub_le _ _) h.bounded }

theorem Sound.get? (h : l.Sound side) {before after : List Order}
    (split : l.queue = before ++ o :: after) : l.get? o.sequence = some o := by
  have inTurn := split ▸ h.inTurn
  have earlier := (List.pairwise_append.mp inTurn).2.2
  rw [Level.get?, split, List.find?_append, List.find?_cons_of_pos (by simp)]
  have none : before.find? (·.sequence == o.sequence) = none := by
    rw [List.find?_eq_none]
    intro x hx
    have := earlier x hx o List.mem_cons_self
    simp only [beq_iff_eq]
    omega
  rw [none]
  rfl

theorem Sound.remove (h : l.Sound side) {before after : List Order}
    (split : l.queue = before ++ o :: after) :
    ∃ l', l.remove o.sequence = .ok (some (o, l')) ∧ l'.Sound side ∧ l'.price = l.price ∧
      l'.queue = before ++ after := by
  have inTurn := split ▸ h.inTurn
  have earlier := (List.pairwise_append.mp inTurn).2.2
  have cut : l.queue.eraseP (·.sequence == o.sequence) = before ++ after := by
    rw [split, List.eraseP_append_right, List.eraseP_cons_of_pos (by simp)]
    intro x hx
    have := earlier x hx o List.mem_cons_self
    simp only [beq_iff_eq]
    omega
  refine ⟨{ l with queue := before ++ after, total := l.total - o.quantity }, ?_, ?_, rfl, rfl⟩
  · simp only [Level.remove, h.get? split, less, if_pos (h.le_total split), cut, ok_bind]
  · have sub : (before ++ after).Sublist l.queue := by rw [split]; simp
    have total := h.total
    rw [split, sumOf_append, sumOf_cons] at total
    exact
      { own := fun x hx => h.own x (sub.subset hx)
        left := fun x hx => h.left x (sub.subset hx)
        inTurn := h.inTurn.sublist sub
        total := by simp only [total, sumOf_append]; omega
        bounded := Nat.le_trans (Nat.sub_le _ _) h.bounded }

end Level
end Bourse
