import Bourse.Market.Order
import Mathlib.Data.List.Forall2
import Mathlib.Data.List.Nodup

/-! Turns. Recorded orders are gone through in the order of their sequences, and those of one
sequence in the order of their creation; each then gets the lowest number that is left for it. -/
namespace Bourse

theorem Instant.le_iff (a b : Instant) :
    a.le b = true ↔ a.second < b.second ∨ a.second = b.second ∧ a.nano ≤ b.nano := by
  rw [Instant.le, Instant.compare, Ordering.isLE_then_iff_or, Int.compare_eq_lt,
    Int.compare_eq_eq, Nat.isLE_compare]

theorem Instant.le_antisymm {a b : Instant} (hab : a.le b = true) (hba : b.le a = true) :
    a = b := by
  rw [Instant.le_iff] at hab hba
  have seconds : a.second = b.second := by omega
  have nanos : a.nano = b.nano := by omega
  cases a
  cases b
  exact congrArg₂ Instant.mk seconds nanos

section Sorting

variable {α : Type} {le : α → α → Bool}
  (trans : ∀ a b c, le a b = true → le b c = true → le a c = true)
  (total : ∀ a b, (le a b || le b a) = true)

include trans total

/-- Sorting puts a first element behind all that it does not come before. -/
theorem mergeSort_cons_eq (a : α) (as : List α) : (a :: as).mergeSort le =
    (as.mergeSort le).filter (fun b => !le a b) ++ a :: (as.mergeSort le).filter (le a) := by
  obtain ⟨front, back, whole, rest, apart⟩ := List.mergeSort_cons trans total a as
  have sorted := List.pairwise_mergeSort trans total (a :: as)
  rw [whole] at sorted
  have behind := (List.pairwise_cons.mp (List.pairwise_append.mp sorted).2.1).1
  have front₁ : front.filter (fun b => !le a b) = front := List.filter_eq_self.mpr apart
  have front₂ : front.filter (le a) = [] :=
    List.filter_eq_nil_iff.mpr fun b hb => by simpa using apart b hb
  have back₁ : back.filter (fun b => !le a b) = [] :=
    List.filter_eq_nil_iff.mpr fun b hb => by simpa using behind b hb
  have back₂ : back.filter (le a) = back := List.filter_eq_self.mpr behind
  rw [whole, rest, List.filter_append, List.filter_append, front₁, front₂, back₁, back₂,
    List.append_nil, List.nil_append]

/-- It makes no difference whether elements are left out before sorting or after it. -/
theorem filter_mergeSort (p : α → Bool) (as : List α) :
    (as.mergeSort le).filter p = (as.filter p).mergeSort le := by
  induction as with
  | nil => rw [List.mergeSort_nil, List.filter_nil, List.mergeSort_nil]
  | cons a as ih =>
    cases stays : p a with
    | true =>
      rw [List.filter_cons_of_pos stays, mergeSort_cons_eq trans total,
        mergeSort_cons_eq trans total, List.filter_append, List.filter_cons_of_pos stays, ← ih,
        List.filter_comm, List.filter_comm (p := p)]
    | false =>
      obtain ⟨front, back, whole, rest, -⟩ := List.mergeSort_cons trans total a as
      rw [List.filter_cons_of_neg (by simp [stays]), ← ih, whole, rest, List.filter_append,
        List.filter_append, List.filter_cons_of_neg (by simp [stays])]

end Sorting

namespace Order

theorem comesBefore_iff (a b : Order) : a.comesBefore b = true ↔
    a.sequence < b.sequence ∨ a.sequence = b.sequence ∧ a.createdAt.le b.createdAt = true := by
  rw [comesBefore, Ordering.isLE_then_iff_or, Nat.compare_eq_lt, Nat.compare_eq_eq]
  rfl

theorem comesBefore_trans (a b c : Order) (hab : a.comesBefore b = true)
    (hbc : b.comesBefore c = true) : a.comesBefore c = true := by
  rw [comesBefore_iff, Instant.le_iff] at *
  omega

theorem comesBefore_total (a b : Order) : (a.comesBefore b || b.comesBefore a) = true := by
  rw [Bool.or_eq_true, comesBefore_iff, comesBefore_iff, Instant.le_iff, Instant.le_iff]
  omega

/-- Of sorted orders with different sequences the first has the lowest. -/
theorem sequences_increase {os : List Order}
    (sorted : os.Pairwise fun a b => a.comesBefore b = true)
    (distinct : (os.map (·.sequence)).Nodup) :
    os.Pairwise fun a b => a.sequence < b.sequence := by
  refine (sorted.and (List.pairwise_map.mp distinct)).imp fun {a b} h => ?_
  have order := (comesBefore_iff a b).mp h.1
  have different : a.sequence ≠ b.sequence := h.2
  omega

/-- An order's turn: what decides when it is gone through. -/
def turn (o : Order) : Nat × Instant := (o.sequence, o.createdAt)

theorem turn_eq {a b : Order} (hab : a.comesBefore b = true) (hba : b.comesBefore a = true) :
    a.turn = b.turn := by
  rw [comesBefore_iff] at hab hba
  have sequences : a.sequence = b.sequence := by omega
  have times : a.createdAt = b.createdAt :=
    Instant.le_antisymm (by simpa [sequences] using hab) (by simpa [sequences] using hba)
  exact congrArg₂ Prod.mk sequences times

/-- Orders of which no two have the same turn are gone through in one way only. -/
theorem mergeSort_perm {os os' : List Order} (perm : os'.Perm os) (turns : (os.map turn).Nodup) :
    os'.mergeSort comesBefore = os.mergeSort comesBefore := by
  have same := (List.mergeSort_perm os' comesBefore).trans
    (perm.trans (List.mergeSort_perm os comesBefore).symm)
  refine same.eq_of_pairwise (fun a b ha hb hab hba => ?_)
    (List.pairwise_mergeSort comesBefore_trans comesBefore_total _)
    (List.pairwise_mergeSort comesBefore_trans comesBefore_total _)
  exact List.inj_on_of_nodup_map turns (perm.mem_iff.mp (List.mem_mergeSort.mp ha))
    (List.mem_mergeSort.mp hb) (turn_eq hab hba)

end Order

/-- Numbers in turn, one for each of those asked for and not below it, of which none has been given
before. -/
structure Numbering (next : Nat) (asked ns : List Nat) : Prop where
  inTurn : ns.Pairwise (· < ·)
  free : ∀ n ∈ ns, next ≤ n
  enough : List.Forall₂ (· ≤ ·) asked ns

/-- One number after the other, each as low as can be. -/
def lowest (next : Nat) : List Nat → List Nat
  | [] => []
  | k :: ks => max k next :: lowest (max k next + 1) ks

variable {next : Nat} {asked ns : List Nat}

theorem numbering_lowest (next : Nat) (asked : List Nat) :
    Numbering next asked (lowest next asked) := by
  induction asked generalizing next with
  | nil => exact ⟨.nil, nofun, .nil⟩
  | cons k ks ih =>
    have later := ih (max k next + 1)
    refine ⟨List.pairwise_cons.mpr ⟨later.free, later.inTurn⟩, ?_,
      .cons (Nat.le_max_left _ _) later.enough⟩
    intro n hn
    rcases List.mem_cons.mp hn with rfl | hn
    · exact Nat.le_max_right _ _
    · exact Nat.le_trans (Nat.le_max_right k next) (Nat.le_of_lt (later.free n hn))

/-- No other numbers in turn are lower anywhere. -/
theorem Numbering.lowest_le (h : Numbering next asked ns) :
    List.Forall₂ (· ≤ ·) (lowest next asked) ns := by
  induction asked generalizing next ns with
  | nil =>
    cases h.enough
    exact .nil
  | cons k ks ih =>
    obtain ⟨inTurn, free, enough⟩ := h
    cases enough with
    | @cons _ n _ ns first rest =>
      have parts := List.pairwise_cons.mp inTurn
      have reached : max k next ≤ n := Nat.max_le.mpr ⟨first, free n List.mem_cons_self⟩
      refine .cons reached (ih ⟨parts.2, fun x hx => ?_, rest⟩)
      exact Nat.lt_of_le_of_lt reached (parts.1 x hx)

/-- A missing number and a repeated one move up, a gap stays. -/
example : lowest 1 [0, 3, 3, 9] = [1, 3, 4, 9] := rfl

end Bourse
