import Bourse.Proofs.Engine.Excerpt

/-! Twins: two engines that look the same but for the sequences of their orders, excerpts of each
other that leave out nothing. Whatever is asked of both, they answer alike and stay twins. -/
namespace Bourse

/-- A renaming of sequences that leaves those below `first` to another one and has those from there
on follow each other from `last` on. -/
def renumber (f : Nat → Nat) (first last : Nat) (s : Nat) : Nat :=
  if s < first then f s else s - first + last

theorem renumber_strictMono {f : Nat → Nat} (mono : StrictMono f) {first last : Nat}
    (below : ∀ s < first, f s < last) : StrictMono (renumber f first last) := by
  intro s t less
  unfold renumber
  by_cases hs : s < first
  · by_cases ht : t < first
    · rw [if_pos hs, if_pos ht]
      exact mono less
    · rw [if_pos hs, if_neg ht]
      exact Nat.lt_of_lt_of_le (below s hs) (Nat.le_add_left _ _)
  · rw [if_neg hs, if_neg (by omega)]
    omega

namespace Engine

/-- The first engine as it is viewed is the second, whose sequences nobody has to rename. -/
structure Twin (v : View) (e e₀ : Engine) : Prop where
  sound : e.Sound
  sound₀ : e₀.Sound
  mono : StrictMono v.sequence
  queues : ∀ side, (e.book.ladder side).orders.map (·.seen v) =
    (e₀.book.ladder side).orders.map (·.seen v.plain)
  nextTrade : e.nextTrade = e₀.nextTrade
  next : ∀ n, v.sequence (e.nextSequence + n) = e₀.nextSequence + n

variable {v : View} {e e₀ e' e₀' : Engine} {m m₀ : Moment} {o o₀ : Order}

theorem Twin.refl (h : e.Sound) {v : View} (same : v.sequence = id) : Twin v e e where
  sound := h
  sound₀ := h
  mono := same ▸ strictMono_id
  queues side := by
    have plain : v.plain = v := by rw [View.plain, ← same]
    rw [plain]
  nextTrade := rfl
  next n := by rw [same]; rfl

/-- All orders are kept. -/
def everyone : OrderId → Bool := fun _ => true

theorem keeping_everyone (os : List Order) : keeping everyone os = os :=
  List.filter_eq_self.mpr fun _ _ => rfl

theorem Twin.excerpt (h : Twin v e e₀) : Excerpt v v.plain everyone e e₀ where
  sound₀ := h.sound
  sound := h.sound₀
  mono₀ := h.mono
  mono := strictMono_id
  queues side := by rw [keeping_everyone, h.queues]
  nextTrade := h.nextTrade

theorem Excerpt.twin (h : Excerpt v v.plain everyone e e₀)
    (next : ∀ n, v.sequence (e.nextSequence + n) = e₀.nextSequence + n) : Twin v e e₀ where
  sound := h.sound₀
  sound₀ := h.sound
  mono := h.mono₀
  queues side := by rw [h.queues, keeping_everyone]
  nextTrade := h.nextTrade
  next := next

theorem Twin.orders (h : Twin v e e₀) :
    e.book.orders.map (·.seen v) = e₀.book.orders.map (·.seen v.plain) := by
  rw [h.excerpt.orders, keeping_everyone]

theorem Twin.like_of_id (h : Twin v e e₀) (here : o ∈ e.book.orders) (here₀ : o₀ ∈ e₀.book.orders)
    (same : o₀.id = o.id) : o.seen v = o₀.seen v.plain := by
  obtain ⟨x, hx, -, like⟩ := h.excerpt.exists_like here
  have sameId : x.id = o₀.id := (congrArg Order.id like).trans same.symm
  rw [← like, List.inj_on_of_nodup_map h.sound₀.book.ids hx here₀ sameId]

theorem Twin.ladders (h : Twin v e e₀) (side : Side) :
    (e.book.ladder side).seen v = (e₀.book.ladder side).seen v.plain :=
  h.excerpt.ladders (fun _ _ => rfl) side

theorem Twin.rejection? (h : Twin v e e₀) (o : Order) : e.rejection? o = e₀.rejection? o := by
  have ids : ∀ (w : View) (os : List Order), (os.map (·.seen w)).any (·.id == o.id) =
      os.any (·.id == o.id) := fun w os => by rw [List.any_map]; rfl
  rw [h.sound.rejection?_eq, h.sound₀.rejection?_eq, ← ids v, h.orders, ids,
    ← restingAt_seen v, h.queues, restingAt_seen]

theorem Twin.matched (h : Twin v e e₀) (alike : m.seen v = m₀.seen v) (o : Order) :
    (e.matchOf o m).seen v = (e₀.matchOf o m₀).seen v.plain := by
  have matched := h.excerpt.matched (o := o) (h.next 0) alike rfl fun _ _ => rfl
  rwa [keeping_everyone] at matched

theorem Twin.settled (h : Twin v e e₀) (alike : m.seen v = m₀.seen v) (o : Order) :
    (e.matchOf o m).taker.settled.seen v = (e₀.matchOf o m₀).taker.settled.seen v.plain :=
  congrArg (·.taker.settled) (h.matched alike o)

theorem Twin.accepted (h : Twin v e e₀) (alike : m.seen v = m₀.seen v)
    (a : Accepted e o (e.matchOf o m) e') (a₀ : Accepted e₀ o (e₀.matchOf o m₀) e₀') :
    Twin v e' e₀' := by
  have matched := h.excerpt.matched (o := o) (h.next 0) alike rfl fun _ _ => rfl
  refine (h.excerpt.accepted rfl matched a a₀).twin fun n => ?_
  rw [a.nextSequence, a₀.nextSequence, Nat.add_assoc, Nat.add_assoc]
  exact h.next (1 + n)

theorem Twin.cancelled (h : Twin v e e₀) (like : o.seen v = o₀.seen v.plain)
    (c : Cancelled e o e') (c₀ : Cancelled e₀ o₀ e₀') : Twin v e' e₀' := by
  refine (h.excerpt.cancelled like rfl c c₀).twin ?_
  rw [c.nextSequence, c₀.nextSequence]
  exact h.next

/-- An engine that has the orders of another, and perhaps a smaller counter, is a twin of all that
this one is a twin of, if the sequences to come are renamed accordingly. -/
theorem Twin.renumbered {f : Nat → Nat} {time : Instant → Instant} {tradeId : Uuid → Uuid}
    (h : Twin ⟨f, time, tradeId⟩ e e₀) (sound : e'.Sound)
    (same : ∀ side, e'.book.ladder side = e.book.ladder side)
    (nextTrade : e'.nextTrade = e.nextTrade) (fewer : e'.nextSequence ≤ e.nextSequence) :
    Twin ⟨renumber f e'.nextSequence e₀.nextSequence, time, tradeId⟩ e' e₀ where
  sound := sound
  sound₀ := h.sound₀
  mono := by
    apply renumber_strictMono h.mono
    intro s hs
    exact Nat.lt_of_lt_of_eq (h.mono (Nat.lt_of_lt_of_le hs fewer)) (h.next 0)
  queues side := by
    have plain : ∀ g, View.plain ⟨g, time, tradeId⟩ = ⟨id, time, tradeId⟩ := fun _ => rfl
    rw [plain, ← plain f, ← h.queues side, ← same side]
    apply List.map_congr_left
    intro o ho
    have low := sound.early ho
    simp only [Order.seen, renumber, if_pos low]
  nextTrade := nextTrade.trans h.nextTrade
  next n := by
    simp only [renumber]
    rw [if_neg (by omega)]
    omega

end Engine
end Bourse
