import Bourse.Proofs.Engine.Runs

/-! No fault can come up. Whatever an engine is called for, and whatever orders it is given back, it
never meets a state that it takes to be impossible, and an order that it turns away has not traded
before. -/
namespace Bourse

/-- A side of a book as all its operations rely on it. -/
structure Ladder.Intact (side : Side) (l : Ladder) : Prop where
  faces : l.side = side
  best : ∃ price, l.bestPrice = .ok price
  occupied : ∀ x ∈ l.levels, x.queue ≠ []
  left : ∀ o ∈ l.orders, 0 < o.quantity
  totals : ∀ x ∈ l.levels, x.total = sumOf Order.quantity x.queue ∧ x.total ≤ Text.maxCount

theorem Ladder.Sound.intact {side : Side} {l : Ladder} (h : l.Sound side) : l.Intact side where
  faces := h.faces
  best := ⟨_, h.bestPrice⟩
  occupied := by
    intro x hx
    exact (h.ranked.of_mem hx).2
  left := by
    intro o ho
    exact (h.own o ho).2
  totals := by
    intro x hx
    have level := (h.ranked.of_mem hx).1
    exact ⟨level.total, level.bounded⟩

namespace Engine

/-- A step of an engine, or a look at its book. -/
inductive Call where
  | step (s : Step)
  | best (side : Side)
  | find (id : OrderId)
  | depth (limit : Nat) (now : Instant)

inductive Answer where
  | outcome (out : Outcome)
  | order (o : Option Order)
  | depth (d : Depth)

def call (e : Engine) : Call → Except Fault (Engine × Answer)
  | .step s => (e.step s).map fun (e, out) => (e, .outcome out)
  | .best side => (e.book.best side).map fun o => (e, .order o)
  | .find id => .ok (e, .order (e.book.find? id))
  | .depth limit now => .ok (e, .depth (e.book.depth limit now))

def callAll (e : Engine) : List Call → Except Fault (Engine × List Answer)
  | [] => .ok (e, [])
  | c :: cs => do
    let (e, a) ← e.call c
    let (e, as) ← e.callAll cs
    return (e, a :: as)

/-- The book has not refused the rest of a submitted order. -/
def Answer.Taken (a : Answer) : Prop := ∀ r, a ≠ .outcome (.submitted (.error (.refused r)))

variable {e e' : Engine} {o : Order} {s : Step} {out : Outcome}

theorem rejection?_ne_refused (r : Refusal) : e.rejection? o ≠ some (.refused r) := by
  intro rejected
  unfold rejection? at rejected
  split at rejected
  · cases rejected
  split at rejected
  · cases rejected
  split at rejected
  · cases rejected
  · cases rejected

theorem Effect.taken (f : Effect e s out e') : (Answer.outcome out).Taken := by
  intro r same
  cases f with
  | rejected rejected =>
    cases same
    exact rejection?_ne_refused r rejected
  | accepted => cases same
  | cancelled => cases same
  | absent => cases same
  | restored => cases same
  | resumed => cases same

theorem taken_order (o : Option Order) : (Answer.order o).Taken := by
  intro r same
  cases same

theorem taken_depth (d : Depth) : (Answer.depth d).Taken := by
  intro r same
  cases same

theorem Sound.call (h : e.Sound) (c : Call) :
    ∃ e' a, e.call c = .ok (e', a) ∧ e'.Sound ∧ a.Taken := by
  cases c with
  | step s =>
    obtain ⟨e', out, hok, f⟩ := h.step s
    refine ⟨e', .outcome out, ?_, (f.advances h).sound, f.taken⟩
    simp only [Engine.call, hok, Except.map]
  | best side =>
    refine ⟨e, .order (e.book.ladder side).orders.head?, ?_, h, taken_order _⟩
    simp only [Engine.call, Book.best, (h.book.ladders side).best, Except.map]
  | find id => exact ⟨e, .order (e.book.find? id), rfl, h, taken_order _⟩
  | depth limit now => exact ⟨e, .depth (e.book.depth limit now), rfl, h, taken_depth _⟩

theorem Sound.callAll (h : e.Sound) (cs : List Call) :
    ∃ e' as, e.callAll cs = .ok (e', as) ∧ e'.Sound ∧ ∀ a ∈ as, a.Taken := by
  induction cs generalizing e with
  | nil => exact ⟨e, [], rfl, h, by simp⟩
  | cons c cs ih =>
    obtain ⟨e₁, a, hok, sound, taken⟩ := h.call c
    obtain ⟨e₂, as, hok₂, sound₂, others⟩ := ih sound
    refine ⟨e₂, a :: as, ?_, sound₂, ?_⟩
    · simp only [Engine.callAll, hok, hok₂, ok_bind]
      rfl
    · intro b hb
      rcases List.mem_cons.mp hb with rfl | hb
      · exact taken
      · exact others b hb

/-- An order is turned away before anything has happened, and never by the book. -/
theorem Sound.submit_error (h : e.Sound) (o : Order) (m : Moment) :
    ∃ e' r, e.submit o m = .ok (e', r) ∧
      ∀ reason, r = .error reason → e' = e ∧ ∀ refusal, reason ≠ .refused refusal := by
  cases hr : e.rejection? o with
  | some reason =>
    refine ⟨e, .error reason, submit_rejected hr, ?_⟩
    rintro _ ⟨⟩
    exact ⟨rfl, fun refusal same => rejection?_ne_refused refusal (same ▸ hr)⟩
  | none =>
    obtain ⟨e', hok, -⟩ := h.submit hr m
    refine ⟨e', _, hok, ?_⟩
    rintro _ ⟨⟩

/-- Calls of any kind and number never fault, the book never refuses what is left of a submitted
order, and both sides are intact after each of them. -/
theorem faultless (cs : List Call) :
    ∃ e as, new.callAll cs = .ok (e, as) ∧ (∀ a ∈ as, a.Taken) ∧
      (∀ side, (e.book.ladder side).Intact side) ∧
      ∀ o m, ∃ e' r, e.submit o m = .ok (e', r) ∧
        ∀ reason, r = .error reason → e' = e ∧ ∀ refusal, reason ≠ .refused refusal := by
  obtain ⟨e, as, hok, sound, taken⟩ := sound_new.callAll cs
  refine ⟨e, as, hok, taken, ?_, sound.submit_error⟩
  intro side
  exact (sound.book.ladders side).intact

end Engine
end Bourse
