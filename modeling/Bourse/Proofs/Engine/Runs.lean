import Bourse.Proofs.Engine.Operations

/-! Runs of an engine: any calls in any order. Every call has one of a few effects, and what all
effects keep holds after every run. In particular no call faults. -/
namespace Bourse

inductive Instruction where
  | submit (o : Order) (m : Moment)
  | cancel (id : OrderId) (now : Instant)

/-- A call of the engine: an instruction, or one of the two that make it go on from records. -/
inductive Step where
  | instruct (i : Instruction)
  | restore (os : List Order)
  | resume (last : Nat)

inductive Outcome where
  | submitted (r : Except Rejection Execution)
  | cancelled (o : Option Order)
  | restored (placed : List Order)
  | resumed

/-- The orders that came to rest, in the order in which they did. -/
def Outcome.placed : Outcome → List Order
  | submitted (.ok x) => x.order.resting
  | restored placed => placed
  | _ => []

namespace Engine

def instruct (e : Engine) : Instruction → Except Fault (Engine × Outcome)
  | .submit o m => (e.submit o m).map fun (e, r) => (e, .submitted r)
  | .cancel id now => (e.cancel id now).map fun (e, o) => (e, .cancelled o)

def step (e : Engine) : Step → Except Fault (Engine × Outcome)
  | .instruct i => e.instruct i
  | .restore os => (e.restore os).map fun (e, placed) => (e, .restored placed)
  | .resume last => .ok (e.resumeTrades last, .resumed)

def run (e : Engine) : List Step → Except Fault (Engine × List Outcome)
  | [] => .ok (e, [])
  | s :: ss => do
    let (e, out) ← e.step s
    let (e, outs) ← e.run ss
    return (e, out :: outs)

/-- All that a call can do to a sound engine. -/
inductive Effect (e : Engine) : Step → Outcome → Engine → Prop where
  | rejected {o : Order} {m : Moment} {r : Rejection} : e.rejection? o = some r →
      Effect e (.instruct (.submit o m)) (.submitted (.error r)) e
  | accepted {o : Order} {m : Moment} {e' : Engine} : e.rejection? o = none →
      Accepted e o (e.matchOf o m) e' →
      Effect e (.instruct (.submit o m))
        (.submitted (.ok ⟨(e.matchOf o m).taker.settled, (e.matchOf o m).fills⟩)) e'
  | cancelled {o : Order} {now : Instant} {e' : Engine} : o ∈ e.book.orders → Cancelled e o e' →
      Effect e (.instruct (.cancel o.id now))
        (.cancelled (some { o with status := .cancelled, updatedAt := now })) e'
  | absent {id : OrderId} {now : Instant} : (∀ o ∈ e.book.orders, o.id ≠ id) →
      Effect e (.instruct (.cancel id now)) (.cancelled none) e
  | restored {os placed : List Order} {e' : Engine} :
      Returned e (os.mergeSort Order.comesBefore) placed e' →
      Effect e (.restore os) (.restored placed) e'
  | resumed {last : Nat} : Effect e (.resume last) .resumed (e.resumeTrades last)

variable {e e₁ e' : Engine} {s : Step} {out : Outcome}

theorem Sound.step (h : e.Sound) (s : Step) :
    ∃ e' out, e.step s = .ok (e', out) ∧ Effect e s out e' := by
  cases s with
  | instruct i =>
    cases i with
    | submit o m =>
      cases hr : e.rejection? o with
      | some r =>
        exact ⟨e, _, by simp [Engine.step, instruct, submit_rejected hr, Except.map],
          .rejected hr⟩
      | none =>
        obtain ⟨e', hok, a⟩ := h.submit hr m
        exact ⟨e', _, by simp [Engine.step, instruct, hok, Except.map], .accepted hr a⟩
    | cancel id now =>
      by_cases present : ∃ o ∈ e.book.orders, o.id = id
      · obtain ⟨o, here, rfl⟩ := present
        obtain ⟨e', hok, c⟩ := h.cancel here now
        exact ⟨e', _, by simp [Engine.step, instruct, hok, Except.map], .cancelled here c⟩
      · have absent : ∀ o ∈ e.book.orders, o.id ≠ id := by simpa using present
        exact ⟨e, _, by simp [Engine.step, instruct, h.cancel_none absent, Except.map],
          .absent absent⟩
  | restore os =>
    obtain ⟨e', placed, hok, r⟩ := h.restoreAll (os.mergeSort Order.comesBefore)
    exact ⟨e', _, by simp [Engine.step, restore, hok, Except.map], .restored r⟩
  | resume last => exact ⟨_, _, rfl, .resumed⟩

theorem Effect.cancel {id : OrderId} {now : Instant}
    (f : Effect e (.instruct (.cancel id now)) out e') :
    (∃ o ∈ e.book.orders, o.id = id ∧ Cancelled e o e' ∧
      out = .cancelled (some { o with status := .cancelled, updatedAt := now })) ∨
    ((∀ o ∈ e.book.orders, o.id ≠ id) ∧ e' = e ∧ out = .cancelled none) := by
  cases f with
  | cancelled here c => exact .inl ⟨_, here, rfl, c, rfl⟩
  | absent absent => exact .inr ⟨absent, rfl, rfl⟩

/-- How the numbering of orders goes on while some orders come to rest. Their sequences are new and
in the order of their coming, and whoever rests afterwards rested before or is one of them. -/
structure Advances (e : Engine) (placed : List Order) (e' : Engine) : Prop where
  sound : e'.Sound
  counter : e.nextSequence ≤ e'.nextSequence
  inTurn : placed.Pairwise fun a b => a.sequence < b.sequence
  fresh : ∀ p ∈ placed, e.nextSequence ≤ p.sequence ∧ p.sequence < e'.nextSequence
  known : ∀ o ∈ e'.book.orders,
    (∃ y ∈ e.book.orders, y.id = o.id ∧ y.sequence = o.sequence) ∨
    (∃ p ∈ placed, p.id = o.id ∧ p.sequence = o.sequence)

theorem Advances.refl (h : e.Sound) : Advances e [] e :=
  ⟨h, Nat.le_refl _, .nil, by simp, fun o ho => .inl ⟨o, ho, rfl, rfl⟩⟩

theorem Advances.trans {ps qs : List Order} (h₁ : Advances e ps e₁) (h₂ : Advances e₁ qs e') :
    Advances e (ps ++ qs) e' where
  sound := h₂.sound
  counter := Nat.le_trans h₁.counter h₂.counter
  inTurn := by
    refine List.pairwise_append.mpr ⟨h₁.inTurn, h₂.inTurn, fun p hp q hq => ?_⟩
    exact Nat.lt_of_lt_of_le (h₁.fresh p hp).2 (h₂.fresh q hq).1
  fresh := by
    intro p hp
    have c₁ := h₁.counter
    have c₂ := h₂.counter
    rcases List.mem_append.mp hp with hp | hp
    · have := h₁.fresh p hp
      omega
    · have := h₂.fresh p hp
      omega
  known := by
    intro o ho
    rcases h₂.known o ho with ⟨y, hy, hid, hs⟩ | ⟨p, hp, hid, hs⟩
    · rcases h₁.known y hy with ⟨z, hz, hid', hs'⟩ | ⟨p, hp, hid', hs'⟩
      · exact .inl ⟨z, hz, hid'.trans hid, hs'.trans hs⟩
      · exact .inr ⟨p, List.mem_append_left _ hp, hid'.trans hid, hs'.trans hs⟩
    · exact .inr ⟨p, List.mem_append_right _ hp, hid, hs⟩

theorem Advances.one {p : Order} (sound : e'.Sound) (orders : ∀ o ∈ e'.book.orders,
      (∃ y ∈ e.book.orders, y.id = o.id ∧ y.sequence = o.sequence) ∨
      p.id = o.id ∧ p.sequence = o.sequence)
    (fresh : e.nextSequence ≤ p.sequence) (next : p.sequence < e'.nextSequence) :
    Advances e [p] e' where
  sound := sound
  counter := Nat.le_of_lt (Nat.lt_of_le_of_lt fresh next)
  inTurn := List.pairwise_singleton _ _
  fresh q hq := by rw [List.mem_singleton.mp hq]; exact ⟨fresh, next⟩
  known o ho := (orders o ho).imp_right fun h => ⟨p, List.mem_singleton_self p, h⟩

theorem Returned.advances {os placed : List Order} (h : e.Sound) (r : Returned e os placed e') :
    Advances e placed e' := by
  induction r with
  | nil => exact .refl h
  | skipped _ _ ih => exact ih h
  | @placed e e₁ e' o os placed live fits one _ ih =>
    have first : Advances e [e.restored o] e₁ := by
      refine .one one.sound (fun x hx => ?_) (Nat.le_max_right _ _)
        (one.nextSequence ▸ Nat.lt_succ_self _)
      rcases List.mem_cons.mp (one.orders.mem_iff.mp hx) with rfl | hx
      · exact .inr ⟨rfl, rfl⟩
      · exact .inl ⟨x, hx, rfl, rfl⟩
    exact first.trans (ih one.sound)

theorem Accepted.advances {o : Order} {m : Moment} (a : Accepted e o (e.matchOf o m) e') :
    Advances e (e.matchOf o m).taker.settled.resting e' := by
  have part := matchQueue_rest_sublist (fun x => (x.id, x.sequence)) (fun _ _ _ => rfl) m
    e.nextTrade (e.takerOf o) (e.book.ladder o.side.opposite).orders
  exact
    { sound := a.sound
      counter := a.nextSequence ▸ Nat.le_succ _
      inTurn := by
        unfold Order.resting
        split
        · exact .nil
        · exact List.pairwise_singleton _ _
      fresh := by
        intro p hp
        obtain ⟨_, _, _, -, settled⟩ := e.matchOf_settled o m
        rw [(mem_resting_settled.mp hp).1, settled, a.nextSequence]
        exact ⟨Nat.le_refl _, Nat.lt_succ_self _⟩
      known := by
        intro x hx
        rcases List.mem_append.mp ((Book.orders_perm e'.book o.side).mem_iff.mp hx) with hx | hx
        · rcases List.mem_append.mp (a.own.mem_iff.mp hx) with hx | hx
          · exact .inr ⟨x, hx, rfl, rfl⟩
          · exact .inl ⟨x, Book.mem_of_ladder hx, rfl, rfl⟩
        · rw [a.queue] at hx
          obtain ⟨y, hy, same⟩ := List.mem_map.mp (part.subset (List.mem_map_of_mem hx))
          obtain ⟨hid, hs⟩ := Prod.mk.inj same
          exact .inl ⟨y, Book.mem_of_ladder hy, hid, hs⟩ }

theorem Effect.advances (h : e.Sound) (f : Effect e s out e') : Advances e out.placed e' := by
  cases f with
  | rejected => exact .refl h
  | accepted _ a => exact a.advances
  | cancelled _ c =>
    exact
      { sound := c.sound
        counter := Nat.le_of_eq c.nextSequence.symm
        inTurn := .nil
        fresh := by simp [Outcome.placed]
        known := fun x hx => .inl ⟨x, c.orders.mem_iff.mpr (List.mem_cons_of_mem _ hx), rfl, rfl⟩ }
  | absent => exact .refl h
  | restored r => exact r.advances h
  | resumed =>
    exact
      { sound := h.resume _
        counter := Nat.le_refl _
        inTurn := .nil
        fresh := by simp [Outcome.placed]
        known := fun x hx => .inl ⟨x, hx, rfl, rfl⟩ }

/-- The effects of some calls, one after the other. -/
inductive Ran : Engine → List Step → List Outcome → Engine → Prop where
  | nil {e : Engine} : Ran e [] [] e
  | cons {e e₁ e' : Engine} {s : Step} {ss : List Step} {out : Outcome} {outs : List Outcome} :
      Effect e s out e₁ → Ran e₁ ss outs e' → Ran e (s :: ss) (out :: outs) e'

theorem Sound.run (h : e.Sound) (ss : List Step) :
    ∃ e' outs, e.run ss = .ok (e', outs) ∧ Ran e ss outs e' := by
  induction ss generalizing e with
  | nil => exact ⟨e, [], rfl, .nil⟩
  | cons s ss ih =>
    obtain ⟨e₁, out, hok, f⟩ := h.step s
    obtain ⟨e₂, outs, hok₂, more⟩ := ih (f.advances h).sound
    exact ⟨e₂, out :: outs, by simp [Engine.run, hok, hok₂], .cons f more⟩

theorem Ran.advances {ss : List Step} {outs : List Outcome} (h : e.Sound) (r : Ran e ss outs e') :
    Advances e (outs.flatMap (·.placed)) e' := by
  induction r with
  | nil => exact .refl h
  | cons f _ ih =>
    have first := f.advances h
    exact first.trans (ih first.sound)

theorem sound_new : new.Sound where
  book :=
    { ladders := by rintro (_ | _) <;> exact Ladder.sound_empty _
      ids := .nil
      index := .nil }
  sequences := .nil
  numbered := by intro o ho; cases ho
  started := Nat.one_pos

end Engine
end Bourse
