import Bourse.Proofs.Book.Image
import Bourse.Proofs.Engine.Runs
import Mathlib.Order.Monotone.Defs

/-! Views: an engine looked at with its sequences renamed and its clock readings and trade ids
changed. Matching sees none of them, and a renaming that keeps the order keeps every queue; so two
engines that look the same go on looking the same. -/
namespace Bourse

/-- A way to look at sequences, clock readings and trade ids. -/
structure View where
  sequence : Nat → Nat
  time : Instant → Instant
  tradeId : Uuid → Uuid

/-- The same view with sequences as they are. -/
def View.plain (v : View) : View := { v with sequence := id }

/-- Sequences renamed, without clock readings and trade ids. -/
def View.timeless (f : Nat → Nat) : View := ⟨f, fun _ => .epoch, fun _ => .nil⟩

section Seen

variable (v : View)

def Order.seen (o : Order) : Order :=
  { o with sequence := v.sequence o.sequence, updatedAt := v.time o.updatedAt }

def Trade.seen (t : Trade) : Trade :=
  { t with id := v.tradeId t.id, createdAt := v.time t.createdAt }

def Fill.seen (f : Fill) : Fill := ⟨f.trade.seen v, f.maker.seen v⟩

def Execution.seen (x : Execution) : Execution := ⟨x.order.seen v, x.fills.map (·.seen v)⟩

def Moment.seen (m : Moment) : Moment := ⟨v.time m.now, fun n => v.tradeId (m.tradeId n)⟩

def Matched.seen (r : Matched) : Matched :=
  ⟨r.taker.seen v, r.fills.map (·.seen v), r.rest.map (·.seen v)⟩

def Level.seen (l : Level) : Level := { l with queue := l.queue.map (·.seen v) }

def Ladder.seen (l : Ladder) : Ladder := { l with levels := l.levels.map (·.seen v) }

end Seen

namespace Order

variable (v : View) (o : Order)

@[simp] theorem seen_side : (o.seen v).side = o.side := rfl
@[simp] theorem seen_price : (o.seen v).price = o.price := rfl
@[simp] theorem seen_quantity : (o.seen v).quantity = o.quantity := rfl

theorem seen_resting : o.resting.map (·.seen v) = (o.seen v).resting := by
  unfold resting
  rw [seen_quantity]
  split <;> rfl

theorem seen_cancelled {v₀ v : View} {o₀ o : Order} {now₀ now : Instant}
    (like : o₀.seen v₀ = o.seen v) (time : v₀.time now₀ = v.time now) :
    seen v₀ { o₀ with status := .cancelled, updatedAt := now₀ } =
      seen v { o with status := .cancelled, updatedAt := now } :=
  calc seen v₀ { o₀ with status := .cancelled, updatedAt := now₀ }
      = { o₀.seen v₀ with status := .cancelled, updatedAt := v₀.time now₀ } := rfl
    _ = { o.seen v with status := .cancelled, updatedAt := v.time now } := by rw [like, time]
    _ = seen v { o with status := .cancelled, updatedAt := now } := rfl

end Order

theorem restingAt_seen (v : View) (price : Price) (os : List Order) :
    restingAt price (os.map (·.seen v)) = restingAt price os := by
  rw [restingAt, List.filter_map, sumOf_map]
  rfl

theorem matchQueue_seen (v : View) (m : Moment) (n : Nat) (t : Order) (os : List Order) :
    (matchQueue m n t os).seen v = matchQueue (m.seen v) n (t.seen v) (os.map (·.seen v)) := by
  refine (matchQueue_map (k := (·.seen v)) (m := m) ?_ ?_ ?_ ?_ n t os ?_).symm
  · exact fun _ => rfl
  · exact fun _ _ => rfl
  · exact fun _ _ _ => rfl
  · exact fun _ => rfl
  · exact fun _ _ => rfl

theorem Order.carries_seen {v : View} (mono : StrictMono v.sequence) (side : Side)
    (os : List Order) : Carries (·.seen v) (fun p => p) side side os where
  own _ _ mine := mine
  price _ := rfl
  quantity _ := rfl
  inTurn _ _ less := mono less
  better _ _ _ _ better := better

namespace Ladder

variable {v : View} {side : Side} {l : Ladder}

theorem orders_seen (v : View) (l : Ladder) : (l.seen v).orders = l.orders.map (·.seen v) := by
  simp only [orders, seen, List.flatMap_map, List.map_flatMap]
  rfl

theorem Sound.seen (mono : StrictMono v.sequence) (h : l.Sound side) : (l.seen v).Sound side := by
  have image := h.image (Order.carries_seen mono side l.orders)
  rw [← h.faces] at image ⊢
  exact image

end Ladder
end Bourse
