import Bourse.Proofs.Book.Ladder

/-! Images of levels and ladders: every order is changed, and the prices along with it. A change
that leaves quantities alone and keeps who stands ahead of whom makes sound ladders of sound
ones. -/
namespace Bourse

/-- The change `g` takes these orders of a side to another side, with `h` for their prices. -/
structure Order.Carries (g : Order → Order) (h : Price → Price) (side side' : Side)
    (os : List Order) : Prop where
  own : ∀ o ∈ os, o.side = side → (g o).side = side'
  price : ∀ o, (g o).price = h o.price
  quantity : ∀ o, (g o).quantity = o.quantity
  inTurn : ∀ a b, a.sequence < b.sequence → (g a).sequence < (g b).sequence
  better : ∀ a ∈ os, ∀ b ∈ os, side.better a.price b.price = true →
    side'.better (h a.price) (h b.price) = true

variable {g : Order → Order} {h : Price → Price} {side side' : Side} {os os' : List Order}

theorem Order.Carries.subset (c : Carries g h side side' os) (part : os' ⊆ os) :
    Carries g h side side' os' where
  own o ho := c.own o (part ho)
  price := c.price
  quantity := c.quantity
  inTurn := c.inTurn
  better a ha b hb := c.better a (part ha) b (part hb)

def Level.image (g : Order → Order) (h : Price → Price) (l : Level) : Level :=
  ⟨h l.price, l.queue.map g, l.total⟩

theorem Level.Sound.image {l : Level} (sound : l.Sound side)
    (c : Order.Carries g h side side' l.queue) : (l.image g h).Sound side' where
  own := by
    intro x hx
    obtain ⟨o, ho, rfl⟩ := List.mem_map.mp hx
    obtain ⟨mine, price⟩ := sound.own o ho
    exact ⟨c.own o ho mine, (c.price o).trans (congrArg h price)⟩
  left := by
    intro x hx
    obtain ⟨o, ho, rfl⟩ := List.mem_map.mp hx
    rw [c.quantity]
    exact sound.left o ho
  inTurn := List.pairwise_map.mpr (sound.inTurn.imp fun less => c.inTurn _ _ less)
  total := by
    rw [Level.image, sumOf_map, sound.total]
    exact sumOf_congr fun o _ => (c.quantity o).symm
  bounded := sound.bounded

namespace Ladder

def image (g : Order → Order) (h : Price → Price) (side : Side) (l : Ladder) : Ladder :=
  ⟨side, l.levels.map (·.image g h)⟩

theorem queued_image (g : Order → Order) (h : Price → Price) (ls : List Level) :
    queued (ls.map (·.image g h)) = (queued ls).map g := by
  rw [queued, List.flatMap_map, queued, List.map_flatMap]
  rfl

theorem orders_image (g : Order → Order) (h : Price → Price) (side : Side) (l : Ladder) :
    (l.image g h side).orders = l.orders.map g :=
  queued_image g h l.levels

theorem Ranked.image {ls : List Level} (ranked : Ranked side ls)
    (c : Order.Carries g h side side' (queued ls)) : Ranked side' (ls.map (·.image g h)) := by
  induction ranked with
  | nil => exact .nil
  | @cons l ls sound occupied _ worse ih =>
    have front := c.subset (List.subset_append_left l.queue (queued ls))
    have back := c.subset (List.subset_append_right l.queue (queued ls))
    refine .cons (sound.image front) (by simpa [Level.image] using occupied) (ih back) ?_
    intro x hx
    rw [queued_image] at hx
    obtain ⟨o, ho, rfl⟩ := List.mem_map.mp hx
    -- The price of a level is that of any of its orders.
    obtain ⟨top, others, hq⟩ := List.exists_cons_of_ne_nil occupied
    have here : top ∈ l.queue := hq ▸ List.mem_cons_self
    have price := (sound.own top here).2
    have price' : (l.image g h).price = h top.price := congrArg h price.symm
    rw [c.price, price']
    apply c.better top (List.mem_append_left _ here) o (List.mem_append_right _ ho)
    rw [price]
    exact worse o ho

theorem Sound.image {l : Ladder} (sound : l.Sound side)
    (c : Order.Carries g h side side' l.orders) : (l.image g h side').Sound side' :=
  ⟨rfl, sound.ranked.image c⟩

/-- Of an image it is enough to know which orders are in it: they can only stand in one way. -/
theorem Sound.orders_eq_map {l l' : Ladder} (sound : l.Sound side) (sound' : l'.Sound side')
    (c : Order.Carries g h side side' l.orders) (perm : l'.orders.Perm (l.orders.map g)) :
    l'.orders = l.orders.map g := by
  have sorted := (sound.image c).pairwise
  rw [orders_image] at sorted
  exact eq_of_perm_of_ahead perm sound'.pairwise sorted

end Ladder
end Bourse
