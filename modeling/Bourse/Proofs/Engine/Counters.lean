import Bourse.Proofs.Engine.Runs

/-! How far the two counters get. An order moves the first by one, and a record to its number. A
fill that moves the second takes an order out of the book, unless it is the last of its taker, which
then does not come to rest. So both are bounded by how many orders came in and by what was recorded,
and 64 bits are enough for them as long as this bound is a number of 64 bits. -/
namespace Bourse

/-- How many orders a call brings. -/
def Step.orders : Step → Nat
  | .instruct (.submit _ _) => 1
  | .instruct (.cancel _ _) => 0
  | .restore os => os.length
  | .resume _ => 0

/-- The numbers a call brings from records. -/
def Step.numbers : Step → List Nat
  | .instruct _ => []
  | .restore os => os.map (·.sequence)
  | .resume last => [last]

namespace Engine

/-- Both counters are numbers of 64 bits. -/
structure InRange (e : Engine) : Prop where
  sequence : e.nextSequence ≤ Text.maxCount
  trade : e.nextTrade ≤ Text.maxCount

/-- No recorded number is so large that the orders which come in cannot be numbered behind it. -/
def Modest (ss : List Step) : Prop :=
  ∀ n ∈ 0 :: ss.flatMap Step.numbers, n + sumOf Step.orders ss < Text.maxCount

instance (ss : List Step) : Decidable (Modest ss) :=
  inferInstanceAs (Decidable (∀ n ∈ _, _))

/-- Where the counters are at most after `n` orders and with no recorded number above `k`. Whoever
rests may yet take part in a trade as its maker. -/
structure Tally (e : Engine) (k n : Nat) : Prop where
  resting : e.book.orders.length ≤ n
  sequence : e.nextSequence ≤ k + n + 1
  trade : e.nextTrade + e.book.orders.length ≤ k + n + 1

variable {e e₁ e' : Engine} {o : Order} {m : Moment} {s : Step} {ss : List Step} {out : Outcome}
  {outs : List Outcome} {k n : Nat}

theorem Modest.fewer {ss' : List Step} (modest : Modest ss)
    (numbers : ss'.flatMap Step.numbers = ss.flatMap Step.numbers)
    (orders : sumOf Step.orders ss' ≤ sumOf Step.orders ss) : Modest ss' := by
  intro n hn
  rw [numbers] at hn
  exact Nat.lt_of_le_of_lt (Nat.add_le_add_left orders n) (modest n hn)

theorem tally_new (k : Nat) : new.Tally k 0 :=
  ⟨Nat.le_refl 0, Nat.le_add_left 1 k, Nat.le_add_left 1 k⟩

/-- Fills are at most as many as the orders they take out of the queue, and one more if nothing of
the taker is left. -/
theorem matchQueue_length (m : Moment) (number : Nat) (taker : Order) (os : List Order) :
    let r := matchQueue m number taker os
    r.fills.length + r.rest.length + r.taker.resting.length ≤ os.length + 1 := by
  have one (o : Order) : o.resting.length ≤ 1 := by
    unfold Order.resting
    split <;> simp
  induction os generalizing number taker with
  | nil => simpa [matchQueue] using one taker
  | cons o os ih =>
    simp only [matchQueue]
    split
    · simpa using one taker
    · split
      · have rest := ih (number + 1) (taker.afterTaking (min taker.quantity o.quantity) m.now)
        simp only [List.length_cons] at rest ⊢
        omega
      · have spent : (taker.afterTaking (min taker.quantity o.quantity) m.now).quantity = 0 := by
          simp only [Order.afterTaking]
          omega
        simp only [Order.resting, spent, List.length_cons, List.length_nil, if_true]
        omega

theorem Accepted.length (a : Accepted e o (e.matchOf o m) e') :
    (e.matchOf o m).fills.length + e'.book.orders.length ≤ e.book.orders.length + 1 := by
  have few : (e.matchOf o m).fills.length + (e.matchOf o m).rest.length +
      (e.matchOf o m).taker.resting.length ≤
        (e.book.ladder o.side.opposite).orders.length + 1 := matchQueue_length _ _ _ _
  have settled : (e.matchOf o m).taker.settled.resting.length =
      (e.matchOf o m).taker.resting.length := by
    unfold Order.resting
    split <;> simp_all [Order.settled]
  have before := (Book.orders_perm e.book o.side).length_eq
  have after := (Book.orders_perm e'.book o.side).length_eq
  have own := a.own.length_eq
  have queue := congrArg List.length a.queue
  simp only [List.length_append] at before after own
  omega

theorem Returned.tally {os placed : List Order} (r : Returned e os placed e') (t : e.Tally k n)
    (low : ∀ o ∈ os, o.sequence ≤ k) : e'.Tally k (n + os.length) := by
  obtain ⟨resting, sequence, trade⟩ := t
  induction r generalizing n with
  | nil => exact ⟨resting, sequence, trade⟩
  | @skipped e e' o os placed _ _ ih =>
    have rest := ih (n := n + 1) (fun x hx => low x (List.mem_cons_of_mem _ hx)) (by omega)
      (by omega) (by omega)
    rwa [Nat.add_right_comm, Nat.add_assoc] at rest
  | @placed e e₁ e' o os placed _ _ one _ ih =>
    have number : (e.restored o).sequence ≤ k + n + 1 :=
      Nat.max_le.mpr ⟨Nat.le_trans (low o List.mem_cons_self) (by omega), sequence⟩
    have length : e₁.book.orders.length = e.book.orders.length + 1 := one.orders.length_eq
    have next := one.nextSequence
    have nextTrade := one.nextTrade
    have rest := ih (n := n + 1) (fun x hx => low x (List.mem_cons_of_mem _ hx)) (by omega)
      (by omega) (by omega)
    rwa [Nat.add_right_comm, Nat.add_assoc] at rest

theorem Tally.resume (t : e.Tally k n) {last : Nat} (low : last ≤ k) :
    (e.resumeTrades last).Tally k n := by
  obtain ⟨resting, sequence, trade⟩ := t
  refine ⟨resting, sequence, ?_⟩
  change max e.nextTrade (last + 1) + e.book.orders.length ≤ k + n + 1
  omega

theorem Effect.tally (f : Effect e s out e') (t : e.Tally k n) (low : ∀ i ∈ s.numbers, i ≤ k) :
    e'.Tally k (n + s.orders) := by
  cases f with
  | rejected => exact ⟨by have := t.1; omega, by have := t.2; omega, by have := t.3; omega⟩
  | accepted _ a =>
    obtain ⟨resting, sequence, trade⟩ := t
    have length := a.length
    have next := a.nextSequence
    have nextTrade := a.nextTrade
    constructor <;> simp only [Step.orders] <;> omega
  | cancelled _ c =>
    obtain ⟨resting, sequence, trade⟩ := t
    have length := c.orders.length_eq
    have next := c.nextSequence
    have nextTrade := c.nextTrade
    simp only [List.length_cons] at length
    constructor <;> simp only [Step.orders] <;> omega
  | absent => exact t
  | @restored os placed _ r =>
    have tally := r.tally t fun o ho => low _ (List.mem_map_of_mem (List.mem_mergeSort.mp ho))
    rwa [List.length_mergeSort] at tally
  | resumed => exact t.resume (low _ (List.mem_singleton_self _))

theorem Ran.tally (r : Ran e ss outs e') (t : e.Tally k n)
    (low : ∀ i ∈ ss.flatMap Step.numbers, i ≤ k) : e'.Tally k (n + sumOf Step.orders ss) := by
  induction r generalizing n with
  | nil => exact t
  | cons f _ ih =>
    rw [sumOf_cons, ← Nat.add_assoc]
    exact ih (f.tally t fun i hi => low i (by simp [hi])) fun i hi => low i (by
      rw [List.flatMap_cons]
      exact List.mem_append_right _ hi)

theorem Tally.inRange (t : e.Tally k n) (small : k + n < Text.maxCount) : e.InRange :=
  ⟨Nat.le_trans t.sequence small,
    Nat.le_trans (Nat.le_add_right _ _) (Nat.le_trans t.trade small)⟩

theorem Ran.inRange (r : Ran new ss outs e) (modest : Modest ss) : e.InRange := by
  have few := modest 0 List.mem_cons_self
  -- The largest number that leaves room for all these orders.
  have tally := r.tally (tally_new (Text.maxCount - 1 - sumOf Step.orders ss)) fun i hi => by
    have := modest i (List.mem_cons_of_mem _ hi)
    omega
  exact tally.inRange (by omega)

/-- After any modest calls both counters are numbers of 64 bits. -/
theorem run_inRange (ran : new.run ss = .ok (e, outs)) (modest : Modest ss) : e.InRange := by
  obtain ⟨_, _, hok, r⟩ := sound_new.run ss
  rw [ran] at hok
  cases hok
  exact r.inRange modest

theorem run_append {ss' : List Step} {outs' : List Outcome} (ran : e.run ss = .ok (e₁, outs))
    (ran' : e₁.run ss' = .ok (e', outs')) : e.run (ss ++ ss') = .ok (e', outs ++ outs') := by
  induction ss generalizing e outs with
  | nil =>
    cases ran
    exact ran'
  | cons s ss ih =>
    cases stepped : e.step s with
    | error fault => simp [Engine.run, stepped] at ran
    | ok p =>
      cases more : p.1.run ss with
      | error fault => simp [Engine.run, stepped, more] at ran
      | ok q =>
        simp only [Engine.run, stepped, more, ok_bind] at ran
        cases ran
        simp [Engine.run, stepped, ih more]

theorem run_submit {r : Except Rejection Execution} (ran : new.run ss = .ok (e, outs))
    (submitted : e.submit o m = .ok (e', r)) :
    new.run (ss ++ [.instruct (.submit o m)]) = .ok (e', outs ++ [.submitted r]) := by
  refine run_append ran ?_
  simp [Engine.run, Engine.step, instruct, submitted, Except.map]

theorem submit_inRange {r : Except Rejection Execution} (ran : new.run ss = .ok (e, outs))
    (submitted : e.submit o m = .ok (e', r)) (modest : Modest (ss ++ [.instruct (.submit o m)])) :
    e'.InRange :=
  run_inRange (run_submit ran submitted) modest

end Engine
end Bourse
