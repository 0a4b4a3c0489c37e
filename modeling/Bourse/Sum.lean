/-! Sums of counts over a list. -/
namespace Bourse

def sumOf {α : Type} (f : α → Nat) : List α → Nat
  | [] => 0
  | a :: as => f a + sumOf f as

variable {α : Type} (f : α → Nat)

@[simp] theorem sumOf_nil : sumOf f [] = 0 := rfl

@[simp] theorem sumOf_cons (a : α) (as : List α) : sumOf f (a :: as) = f a + sumOf f as := rfl

@[simp] theorem sumOf_append (as bs : List α) : sumOf f (as ++ bs) = sumOf f as + sumOf f bs := by
  induction as with
  | nil => simp
  | cons a as ih => simp [ih, Nat.add_assoc]

theorem sumOf_map {β : Type} (g : β → α) (bs : List β) :
    sumOf f (bs.map g) = sumOf (fun b => f (g b)) bs := by
  induction bs with
  | nil => rfl
  | cons b bs ih => simp [ih]

theorem sumOf_congr {f g : α → Nat} {as : List α} (h : ∀ a ∈ as, f a = g a) :
    sumOf f as = sumOf g as := by
  induction as with
  | nil => rfl
  | cons a as ih =>
    rw [sumOf_cons, sumOf_cons, h a List.mem_cons_self,
      ih fun b hb => h b (List.mem_cons_of_mem _ hb)]

theorem sumOf_add (g : α → Nat) (as : List α) :
    sumOf (fun a => f a + g a) as = sumOf f as + sumOf g as := by
  induction as with
  | nil => rfl
  | cons a as ih =>
    simp only [sumOf_cons, ih]
    omega

theorem sumOf_zero (as : List α) : sumOf (fun _ => 0) as = 0 := by
  induction as with
  | nil => rfl
  | cons a as ih => rw [sumOf_cons, ih]

theorem sumOf_filter (p : α → Bool) (as : List α) :
    sumOf f (as.filter p) = sumOf (fun a => if p a then f a else 0) as := by
  induction as with
  | nil => rfl
  | cons a as ih =>
    cases hp : p a <;> simp [hp, ih]

theorem sumOf_drop_le (n : Nat) (as : List α) : sumOf f (as.drop n) ≤ sumOf f as := by
  calc sumOf f (as.drop n) ≤ sumOf f (as.take n) + sumOf f (as.drop n) := Nat.le_add_left _ _
    _ = sumOf f as := by rw [← sumOf_append, List.take_append_drop]

theorem sumOf_perm {as bs : List α} (h : as.Perm bs) : sumOf f as = sumOf f bs := by
  induction h with
  | nil => rfl
  | cons a _ ih => simp [ih]
  | swap a b _ => simp [Nat.add_left_comm]
  | trans _ _ ih₁ ih₂ => exact ih₁.trans ih₂

end Bourse
