import Bourse.Proofs.Engine.Counters
import Bourse.Proofs.Engine.Executions

/-! Admission: which orders an engine turns away, and that nothing comes of those. Who rests is
known from the answers it has given so far, and who rests decides. -/
namespace Bourse

/-- Who rests after an answer, from those who rested before it. An order that the answer shows
filled or cancelled rests no more. -/
def Outcome.follow (os : List Order) : Outcome → List Order
  | submitted (.ok x) =>
    (x.order :: x.makers).filter (fun o => !o.status.isTerminal) ++
      os.filter fun o => !(x.makers.map (·.id)).contains o.id
  | cancelled (some o) => os.filter (·.id != o.id)
  | restored placed => placed ++ os
  | submitted (.error _) | cancelled none | resumed => os

/-- Who rests after all these answers, the first of which was given with nothing at rest. -/
def restingBy (outs : List Outcome) : List Order := outs.foldl Outcome.follow []

namespace Engine

variable {e e' : Engine} {o : Order} {m : Moment} {s : Step} {out : Outcome} {os : List Order}

theorem Accepted.follow (h : e.Sound) (accepted : e.rejection? o = none)
    (a : Accepted e o (e.matchOf o m) e') (known : e.book.orders.Perm os) :
    e'.book.orders.Perm (Outcome.follow os
      (.submitted (.ok ⟨(e.matchOf o m).taker.settled, (e.matchOf o m).fills⟩))) := by
  obtain ⟨-, fresh, -⟩ := h.rejection?_none.mp accepted
  have ex := h.executed (m := m) fresh rfl
  have parties := List.Nodup.of_map (l := _ :: _) Order.id
    (List.nodup_cons.mpr ⟨ex.apart, ex.distinct⟩)
  have others := List.Nodup.of_map Order.id ((known.map _).nodup_iff.mp h.book.ids)
  refine (List.perm_ext_iff_of_nodup (.of_map Order.id a.sound.book.ids) ?_).mpr fun x => ?_
  · refine List.nodup_append.mpr ⟨parties.filter _, others.filter _, fun x hx y hy same => ?_⟩
    subst same
    obtain ⟨party, -⟩ := List.mem_filter.mp hx
    obtain ⟨there, apart⟩ := List.mem_filter.mp hy
    rcases List.mem_cons.mp party with rfl | made
    · exact fresh _ (known.mem_iff.mpr there) ex.taker.id
    · simp only [Bool.not_eq_true', List.contains_eq_mem, decide_eq_false_iff_not] at apart
      exact apart (List.mem_map_of_mem made)
  · rw [a.mem_orders h x, known.mem_iff]
    simp only [Outcome.follow, List.mem_append, List.mem_filter, List.mem_cons, Bool.not_eq_true',
      List.contains_eq_mem, decide_eq_false_iff_not, or_and_right, or_assoc]
    rfl

theorem Cancelled.follow (c : Cancelled e o e') (h : e.Sound) (known : e.book.orders.Perm os) :
    e'.book.orders.Perm (os.filter (·.id != o.id)) := by
  have ids := (c.orders.map (·.id)).nodup_iff.mp h.book.ids
  have rest : e'.book.orders.filter (·.id != o.id) = e'.book.orders := by
    refine List.filter_eq_self.mpr fun x hx => bne_iff_ne.mpr fun same => ?_
    exact (List.nodup_cons.mp ids).1 (List.mem_map.mpr ⟨x, hx, same⟩)
  have left := (c.orders.symm.trans known).filter (·.id != o.id)
  rwa [List.filter_cons_of_neg (by simp), rest] at left

theorem Effect.follow (h : e.Sound) (known : e.book.orders.Perm os) (f : Effect e s out e') :
    e'.book.orders.Perm (out.follow os) := by
  cases f with
  | rejected => exact known
  | accepted accepted a => exact a.follow h accepted known
  | cancelled _ c => exact c.follow h known
  | absent => exact known
  | restored r => exact r.orders.trans (known.append_left _)
  | resumed => exact known

theorem Ran.follow {ss : List Step} {outs : List Outcome} (h : e.Sound)
    (known : e.book.orders.Perm os) (r : Ran e ss outs e') :
    e'.book.orders.Perm (outs.foldl Outcome.follow os) := by
  induction r generalizing os with
  | nil => exact known
  | cons f _ ih => exact ih (f.advances h).sound (f.follow h known)

end Engine

/-- How much rests on the side and at the price of an order. -/
def Order.volume (o : Order) (resting : List Order) : Nat :=
  restingAt o.price (resting.filter (·.side == o.side))

/-- The answer to an order while these rest: it asks for nothing, or its id rests, or its level
cannot hold it, or it is taken in. -/
structure Admission (resting : List Order) (o : Order) (r : Except Rejection Execution) : Prop where
  nothing : r = .error (.invalid (.quantity 0)) ↔ o.quantity = 0
  duplicate : r = .error (.duplicate o.id) ↔ 0 < o.quantity ∧ ∃ x ∈ resting, x.id = o.id
  overflow : r = .error (.overflow o.id o.price) ↔ 0 < o.quantity ∧
    ¬ (∃ x ∈ resting, x.id = o.id) ∧ Text.maxCount < o.volume resting + o.quantity
  taken : (∃ x, r = .ok x) ↔ 0 < o.quantity ∧
    ¬ (∃ x ∈ resting, x.id = o.id) ∧ o.volume resting + o.quantity ≤ Text.maxCount

namespace Engine

variable {e : Engine} {o : Order} {os : List Order}

theorem Sound.volume (h : e.Sound) (known : e.book.orders.Perm os) :
    restingAt o.price (e.book.ladder o.side).orders = o.volume os :=
  restingAt_perm ((h.book.side_perm o.side).symm.trans (known.filter _)) o.price

theorem Sound.rejection?_known (h : e.Sound) (known : e.book.orders.Perm os) :
    e.rejection? o =
      if o.quantity = 0 then some (.invalid (.quantity 0))
      else if ∃ x ∈ os, x.id = o.id then some (.duplicate o.id)
      else if o.volume os + o.quantity ≤ Text.maxCount then none
      else some (.overflow o.id o.price) := by
  have ids : (e.book.orders.any (·.id == o.id) = true) = ∃ x ∈ os, x.id = o.id := by
    simp only [List.any_eq_true, known.mem_iff, beq_iff_eq]
  rw [h.rejection?_eq, h.volume known]
  simp only [ids]
  split
  · rename_i zero
    rw [zero]
  · rfl

/-- An order is turned away for the first of the reasons there are, and then nothing has changed. -/
theorem Sound.admission (h : e.Sound) (known : e.book.orders.Perm os) (o : Order) (m : Moment) :
    ∃ e' r, e.submit o m = .ok (e', r) ∧ Admission os o r ∧
      ∀ reason, r = .error reason → e' = e := by
  have rejection := h.rejection?_known (o := o) known
  by_cases zero : o.quantity = 0
  · rw [if_pos zero] at rejection
    refine ⟨e, _, submit_rejected rejection, ?_, fun _ _ => rfl⟩
    constructor <;> simp [zero]
  have left := Nat.pos_of_ne_zero zero
  rw [if_neg zero] at rejection
  by_cases rests : ∃ x ∈ os, x.id = o.id
  · rw [if_pos rests] at rejection
    refine ⟨e, _, submit_rejected rejection, ?_, fun _ _ => rfl⟩
    constructor <;> simp only [zero, left, rests] <;> simp
  rw [if_neg rests] at rejection
  by_cases room : o.volume os + o.quantity ≤ Text.maxCount
  · rw [if_pos room] at rejection
    obtain ⟨e', hok, -⟩ := h.submit rejection m
    refine ⟨e', _, hok, ?_, nofun⟩
    constructor <;> simp only [zero, left, rests, room, Nat.not_lt.mpr room] <;> simp
  · rw [if_neg room] at rejection
    refine ⟨e, _, submit_rejected rejection, ?_, fun _ _ => rfl⟩
    constructor <;> simp only [zero, left, rests, room, Nat.lt_of_not_le room] <;> simp

/-- After any calls there rest the orders that the answers tell of, and these alone decide what
becomes of the next order: it is turned away for the first of three reasons, and the state stays as
it is, or it is taken in. The counters stay below 2 to the 64th while the calls are modest. -/
theorem turned_away_or_taken (ss : List Step) (o : Order) (m : Moment) :
    ∃ e outs e' r, new.run ss = .ok (e, outs) ∧ e.submit o m = .ok (e', r) ∧
      e.book.orders.Perm (restingBy outs) ∧
      (e.book.volumeAt o.side o.price).getD 0 = o.volume (restingBy outs) ∧
      Admission (restingBy outs) o r ∧ (∀ reason, r = .error reason → e' = e) ∧
      (Modest (ss ++ [.instruct (.submit o m)]) → e'.InRange) := by
  obtain ⟨e, outs, hok, ran⟩ := sound_new.run ss
  have sound := (ran.advances sound_new).sound
  have known : e.book.orders.Perm (restingBy outs) := ran.follow sound_new (.refl _)
  have volume : (e.book.volumeAt o.side o.price).getD 0 =
      restingAt o.price (e.book.ladder o.side).orders := (sound.book.ladders o.side).total o.price
  obtain ⟨e', r, submitted, admission, unchanged⟩ := sound.admission known o m
  exact ⟨e, outs, e', r, hok, submitted, known, volume.trans (sound.volume known), admission,
    unchanged, submit_inRange hok submitted⟩

end Engine
end Bourse
