import Bourse.Book.Basic
import Bourse.Proofs.Book.Ladder
import Mathlib.Data.List.Nodup

/-! What the operations on a book do to the orders of its sides. A sound book has sound ladders, no
two orders of one id, and an index that lists of each order the id and the place. -/
namespace Bourse

def Order.place (o : Order) : Place := ⟨o.side, o.price, o.sequence⟩

def Order.entry (o : Order) : OrderId × Place := (o.id, o.place)

theorem lookup_of_mem {α β : Type} [BEq α] [LawfulBEq α] {es : List (α × β)}
    (distinct : (es.map (·.1)).Nodup) {k : α} {v : β} (here : (k, v) ∈ es) :
    es.lookup k = some v := by
  induction es with
  | nil => cases here
  | cons e es ih =>
    have parts := List.nodup_cons.mp distinct
    rcases List.mem_cons.mp here with rfl | here
    · simp
    · have ne : k ≠ e.1 := fun h => parts.1 (List.mem_map.mpr ⟨_, here, h⟩)
      rw [List.lookup_cons, beq_false_of_ne ne]
      exact ih parts.2 here

theorem find_key_of_mem {α κ : Type} [BEq κ] [LawfulBEq κ] {key : α → κ} {as : List α}
    (distinct : (as.map key).Nodup) {a : α} (here : a ∈ as) :
    as.find? (key · == key a) = some a := by
  cases hf : as.find? (key · == key a) with
  | none => simpa using List.find?_eq_none.mp hf a here
  | some x =>
    have same : key x = key a := by simpa using List.find?_some hf
    rw [List.inj_on_of_nodup_map distinct (List.mem_of_find?_eq_some hf) here same]

theorem filter_key_of_mem {α κ : Type} [BEq κ] [LawfulBEq κ] {key : α → κ} {as : List α}
    (distinct : (as.map key).Nodup) {a : α} (here : a ∈ as) :
    as.filter (key · == key a) = [a] := by
  induction as with
  | nil => cases here
  | cons b as ih =>
    have parts := List.nodup_cons.mp distinct
    rcases List.mem_cons.mp here with rfl | here
    · have others : as.filter (key · == key a) = [] := by
        apply List.filter_eq_nil_iff.mpr
        intro x hx same
        exact parts.1 (List.mem_map.mpr ⟨x, hx, beq_iff_eq.mp same⟩)
      rw [List.filter_cons_of_pos (by simp), others]
    · have ne : key b ≠ key a := fun same => parts.1 (List.mem_map.mpr ⟨a, here, same.symm⟩)
      rw [List.filter_cons_of_neg (by simpa using ne)]
      exact ih parts.2 here

namespace Book

structure Sound (b : Book) : Prop where
  ladders : ∀ side, (b.ladder side).Sound side
  ids : (b.orders.map (·.id)).Nodup
  index : b.index.Perm (b.orders.map Order.entry)

variable {b : Book} {o : Order} {side : Side} {l : Ladder}

@[simp] theorem ladder_setLadder_same : (b.setLadder side l).ladder side = l := by
  cases side <;> rfl

theorem ladder_setLadder_other {s : Side} (h : s ≠ side) :
    (b.setLadder side l).ladder s = b.ladder s := by
  cases side <;> cases s <;> first | rfl | exact absurd rfl h

@[simp] theorem index_setLadder : (b.setLadder side l).index = b.index := by cases side <;> rfl

theorem orders_of_ladders {b' : Book} (h : ∀ side, b'.ladder side = b.ladder side) :
    b'.orders = b.orders :=
  congrArg₂ (fun bids asks => Ladder.orders bids ++ Ladder.orders asks) (h .buy) (h .sell)

theorem orders_perm (b : Book) (side : Side) :
    b.orders.Perm ((b.ladder side).orders ++ (b.ladder side.opposite).orders) := by
  cases side with
  | buy => exact .refl _
  | sell => exact List.perm_append_comm

theorem mem_of_ladder (here : o ∈ (b.ladder side).orders) : o ∈ b.orders :=
  (orders_perm b side).mem_iff.mpr (List.mem_append_left _ here)

theorem orders_perm_of_side {b' : Book} (more : List Order)
    (same : b'.ladder side.opposite = b.ladder side.opposite)
    (h : (b'.ladder side).orders.Perm (more ++ (b.ladder side).orders)) :
    b'.orders.Perm (more ++ b.orders) := by
  apply (orders_perm b' side).trans
  rw [same]
  apply (h.append_right _).trans
  rw [List.append_assoc]
  exact ((orders_perm b side).symm).append_left more

theorem Sound.ladders_of (h : b.Sound) {b' : Book} (sound : (b'.ladder side).Sound side)
    (other : b'.ladder side.opposite = b.ladder side.opposite) (s : Side) :
    (b'.ladder s).Sound s := by
  rcases Side.eq_or_eq_opposite s side with rfl | rfl
  · exact sound
  · rw [other]; exact h.ladders _

theorem Sound.own (h : b.Sound) {o : Order} (here : o ∈ (b.ladder side).orders) : o.side = side :=
  ((h.ladders side).own o here).1

theorem Sound.side_perm (h : b.Sound) (side : Side) :
    (b.orders.filter (·.side == side)).Perm (b.ladder side).orders := by
  apply ((orders_perm b side).filter _).trans
  have mine : (b.ladder side).orders.filter (·.side == side) = (b.ladder side).orders :=
    List.filter_eq_self.mpr fun x hx => beq_iff_eq.mpr (h.own hx)
  have none : (b.ladder side.opposite).orders.filter (·.side == side) = [] :=
    List.filter_eq_nil_iff.mpr fun x hx => by simp [h.own hx, Side.opposite_ne]
  rw [List.filter_append, mine, none, List.append_nil]

/-- Two books are the same on both sides as soon as the same orders rest in them. -/
theorem Sound.unique (h : b.Sound) {b' : Book} (h' : b'.Sound) (perm : b.orders.Perm b'.orders)
    (side : Side) : b.ladder side = b'.ladder side := by
  apply (h.ladders side).unique (h'.ladders side)
  exact ((h.side_perm side).symm.trans (perm.filter _)).trans (h'.side_perm side)

/-- Neither do two orders of one side share an id nor orders of both. -/
theorem Sound.ids_apart (h : b.Sound) (side : Side) :
    ((b.ladder side).orders.map (·.id) ++ (b.ladder side.opposite).orders.map (·.id)).Nodup := by
  have ids := ((orders_perm b side).map (·.id)).nodup_iff.mp h.ids
  rwa [List.map_append] at ids

theorem Sound.side_ids (h : b.Sound) (side : Side) :
    ((b.ladder side).orders.map (·.id)).Nodup :=
  (List.nodup_append.mp (h.ids_apart side)).1

theorem Sound.volume (h : b.Sound) (side : Side) (price : Price) :
    (b.volumeAt side price).getD 0 = restingAt price (b.ladder side).orders :=
  (h.ladders side).total price

theorem Sound.volumeAt (h : b.Sound) (side : Side) (price : Price) : b.volumeAt side price =
    if restingAt price (b.ladder side).orders = 0 then none
    else some (restingAt price (b.ladder side).orders) :=
  (h.ladders side).volume price

theorem Sound.ordersAt (h : b.Sound) (side : Side) (price : Price) :
    b.ordersAt side price = (b.ladder side).orders.filter (·.price == price) :=
  (h.ladders side).ordersAt price

theorem Sound.mem_orders (h : b.Sound) : o ∈ b.orders ↔ o ∈ (b.ladder o.side).orders := by
  rw [(orders_perm b o.side).mem_iff, List.mem_append]
  constructor
  · rintro (ho | ho)
    · exact ho
    · exact absurd (h.own ho).symm (Side.opposite_ne _)
  · exact .inl

theorem Sound.left (h : b.Sound) (here : o ∈ b.orders) : 0 < o.quantity :=
  ((h.ladders o.side).own o (h.mem_orders.mp here)).2

theorem Sound.lookup (h : b.Sound) (here : o ∈ b.orders) : b.index.lookup o.id = some o.place := by
  refine lookup_of_mem ?_ (h.index.mem_iff.mpr (List.mem_map_of_mem here))
  rw [(h.index.map _).nodup_iff, List.map_map]
  exact h.ids

theorem Sound.lookup_none (h : b.Sound) {id : OrderId} (absent : ∀ o ∈ b.orders, o.id ≠ id) :
    b.index.lookup id = none := by
  rw [List.lookup_eq_none_iff]
  intro e he
  obtain ⟨o, ho, rfl⟩ := List.mem_map.mp (h.index.mem_iff.mp he)
  simpa [Order.entry] using (absent o ho).symm

theorem Sound.contains (h : b.Sound) (id : OrderId) :
    b.contains id = true ↔ ∃ o ∈ b.orders, o.id = id := by
  constructor
  · intro hc
    by_contra none
    simp only [not_exists, not_and] at none
    simp [Book.contains, h.lookup_none none] at hc
  · rintro ⟨o, here, rfl⟩
    simp [Book.contains, h.lookup here]

theorem Sound.absent (h : b.Sound) (id : OrderId) :
    b.contains id = false ↔ ∀ o ∈ b.orders, o.id ≠ id := by
  rw [Bool.eq_false_iff, Ne, h.contains]
  simp

theorem Sound.find? (h : b.Sound) (id : OrderId) :
    b.find? id = b.orders.find? (·.id == id) := by
  by_cases present : ∃ o ∈ b.orders, o.id = id
  · obtain ⟨o, here, rfl⟩ := present
    have left : b.find? o.id = some o := by
      rw [Book.find?, h.lookup here, Option.bind_some]
      exact (h.ladders o.side).get? (h.mem_orders.mp here)
    rw [left, find_key_of_mem h.ids here]
  · simp only [not_exists, not_and] at present
    rw [Book.find?, h.lookup_none present, Option.bind_none, eq_comm, List.find?_eq_none]
    intro o ho
    simpa using present o ho

theorem perm_unindex {es : List (OrderId × Place)} {rest : List Order}
    (h : es.Perm (o.entry :: rest.map Order.entry)) (fresh : o.id ∉ rest.map (·.id)) :
    (es.filter fun e => e.1 != o.id).Perm (rest.map Order.entry) := by
  have h' := h.filter fun e => e.1 != o.id
  have others : (rest.map Order.entry).filter (fun e => e.1 != o.id) = rest.map Order.entry := by
    apply List.filter_eq_self.mpr
    intro e he
    obtain ⟨x, hx, rfl⟩ := List.mem_map.mp he
    have ne : x.id ≠ o.id := fun hid => fresh (List.mem_map.mpr ⟨x, hx, hid⟩)
    simpa [Order.entry] using ne
  rwa [List.filter_cons_of_neg (by simp [Order.entry]), others] at h'

/-- An order that can rest: it is live, its id is new, and the level of its price can hold it. -/
structure Placeable (b : Book) (o : Order) : Prop where
  left : 0 < o.quantity
  live : o.status.isTerminal = false
  fresh : ∀ x ∈ b.orders, x.id ≠ o.id
  room : restingAt o.price (b.ladder o.side).orders + o.quantity ≤ Text.maxCount

theorem Sound.refusal?_none (h : b.Sound) : b.refusal? o = none ↔ b.Placeable o := by
  have fresh := h.absent o.id
  have hold := (h.ladders o.side).canHold o.price o.quantity
  constructor
  · intro accepted
    unfold refusal? at accepted
    split at accepted
    · cases accepted
    rename_i left
    split at accepted
    · cases accepted
    rename_i live
    split at accepted
    · cases accepted
    rename_i new
    split at accepted
    · rename_i fits
      rw [hold] at fits
      exact ⟨Nat.pos_of_ne_zero left, by simpa using live, fresh.mp (by simpa using new),
        of_decide_eq_true fits⟩
    · cases accepted
  · intro p
    simp [refusal?, Nat.ne_of_gt p.left, p.live, fresh.mpr p.fresh, hold, p.room]

theorem Sound.add (h : b.Sound) (p : b.Placeable o)
    (turn : ∀ x ∈ (b.ladder o.side).orders, x.price = o.price → x.sequence < o.sequence) :
    ∃ b', b.add o = .ok (.ok b') ∧ b'.Sound ∧
      b'.ladder o.side.opposite = b.ladder o.side.opposite ∧
      (∃ before after, (b.ladder o.side).orders = before ++ after ∧
        (b'.ladder o.side).orders = before ++ o :: after) ∧
      b'.orders.Perm (o :: b.orders) := by
  obtain ⟨l', hok, sound, before, after, hs, hs'⟩ :=
    (h.ladders o.side).insert rfl p.left p.room turn
  let b' : Book := { b.setLadder o.side l' with index := (o.id, o.place) :: b.index }
  have same : b'.ladder o.side = l' := ladder_setLadder_same (b := b)
  have other : b'.ladder o.side.opposite = b.ladder o.side.opposite :=
    ladder_setLadder_other (Side.opposite_ne _)
  have perm : b'.orders.Perm (o :: b.orders) := by
    apply orders_perm_of_side [o] other
    rw [same, hs, hs']
    exact List.perm_middle
  refine ⟨b', by simp [Book.add, h.refusal?_none.mpr p, Book.place, hok, b', Order.place], ?_,
    other, ⟨before, after, hs, same ▸ hs'⟩, perm⟩
  exact
    { ladders := h.ladders_of (same ▸ sound) other
      ids := by
        rw [(perm.map _).nodup_iff, List.map_cons, List.nodup_cons]
        refine ⟨fun hm => ?_, h.ids⟩
        obtain ⟨x, hx, hid⟩ := List.mem_map.mp hm
        exact p.fresh x hx hid
      index := ((h.index.cons _).trans (.refl (o.entry :: _))).trans (perm.map Order.entry).symm }

/-- The soundness of a book whose one side has lost an order, which has left the index too. -/
theorem Sound.without (h : b.Sound) {b' : Book} (sound : (b'.ladder o.side).Sound o.side)
    (other : b'.ladder o.side.opposite = b.ladder o.side.opposite)
    (perm : b.orders.Perm (o :: b'.orders))
    (index : b'.index = b.index.filter fun e => e.1 != o.id) : b'.Sound where
  ladders := h.ladders_of sound other
  ids := by
    have ids := (perm.map (·.id)).nodup_iff.mp h.ids
    exact (List.nodup_cons.mp ids).2
  index := by
    have ids := (perm.map (·.id)).nodup_iff.mp h.ids
    rw [index]
    exact perm_unindex (h.index.trans (perm.map Order.entry)) (List.nodup_cons.mp ids).1

theorem Sound.remove (h : b.Sound) (here : o ∈ b.orders) :
    ∃ b', b.remove o.id = .ok (some (o, b')) ∧ b'.Sound ∧
      b'.ladder o.side.opposite = b.ladder o.side.opposite ∧
      (∃ before after, (b.ladder o.side).orders = before ++ o :: after ∧
        (b'.ladder o.side).orders = before ++ after) ∧
      b.orders.Perm (o :: b'.orders) := by
  obtain ⟨l', hok, sound, before, after, hs, hs'⟩ :=
    (h.ladders o.side).remove (h.mem_orders.mp here)
  let b' : Book := (b.setLadder o.side l').unindex o.id
  have same : b'.ladder o.side = l' := ladder_setLadder_same (b := b)
  have other : b'.ladder o.side.opposite = b.ladder o.side.opposite :=
    ladder_setLadder_other (Side.opposite_ne _)
  have perm : b.orders.Perm (o :: b'.orders) := by
    apply orders_perm_of_side (b := b') [o] other.symm
    rw [same, hs, hs']
    exact List.perm_middle
  refine ⟨b', ?_, h.without (same ▸ sound) other perm (by simp [b', unindex]), other,
    ⟨before, after, hs, same ▸ hs'⟩, perm⟩
  simp [Book.remove, h.lookup here, Order.place, hok, b']

theorem Sound.remove_none (h : b.Sound) {id : OrderId} (absent : ∀ o ∈ b.orders, o.id ≠ id) :
    b.remove id = .ok none := by
  simp [Book.remove, h.lookup_none absent]

theorem Sound.fillBest (h : b.Sound) {rest : List Order}
    (head : (b.ladder side).orders = o :: rest) {quantity : Nat} (enough : quantity ≤ o.quantity)
    (now : Instant) :
    ∃ b', b.fillBest side quantity now = .ok (some (o.afterFill quantity now, b')) ∧ b'.Sound ∧
      b'.ladder side.opposite = b.ladder side.opposite ∧
      (b'.ladder side).orders = fillHead o quantity now rest := by
  have own : o.side = side := h.own (head ▸ List.mem_cons_self)
  subst own
  obtain ⟨l', hok, sound, hs'⟩ := (h.ladders o.side).fillBest head enough now
  by_cases spent : o.quantity - quantity = 0
  · let b' : Book := (b.setLadder o.side l').unindex o.id
    have same : b'.ladder o.side = l' := ladder_setLadder_same (b := b)
    have other : b'.ladder o.side.opposite = b.ladder o.side.opposite :=
      ladder_setLadder_other (Side.opposite_ne _)
    have rest' : l'.orders = rest := by rw [hs', fillHead, if_pos spent]
    have perm : b.orders.Perm (o :: b'.orders) := by
      apply orders_perm_of_side (b := b') [o] other.symm
      rw [same, head, rest']
      exact .refl _
    exact ⟨b', by simp [Book.fillBest, hok, spent, b'],
      h.without (same ▸ sound) other perm (by simp [b', unindex]), other, same ▸ hs'⟩
  · let b' : Book := b.setLadder o.side l'
    have same : b'.ladder o.side = l' := ladder_setLadder_same
    have other : b'.ladder o.side.opposite = b.ladder o.side.opposite :=
      ladder_setLadder_other (Side.opposite_ne _)
    have rest' : l'.orders = o.afterFill quantity now :: rest := by
      rw [hs', fillHead, if_neg spent]
    -- The head keeps id and place, so nothing changes for the index.
    have perm : (b'.orders.map Order.entry).Perm (b.orders.map Order.entry) := by
      refine ((orders_perm b' o.side).map _).trans (.trans ?_ ((orders_perm b o.side).map _).symm)
      rw [same, other, rest', head]
      exact .refl _
    refine ⟨b', by simp [Book.fillBest, hok, spent, b'], ?_, other, same ▸ hs'⟩
    exact
      { ladders := h.ladders_of (same ▸ sound) other
        ids := by
          have ids := (perm.map (·.1)).nodup_iff.mpr (by rw [List.map_map]; exact h.ids)
          rwa [List.map_map] at ids
        index := by
          rw [index_setLadder]
          exact h.index.trans perm.symm }

end Book
end Bourse
