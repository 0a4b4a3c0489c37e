import Bourse.Feed.Basic

/-! Readers of a feed. Whoever is at its end finds all that is published from then on, item by item,
unless he falls behind what is kept. -/
namespace Bourse.Feed

variable {α : Type} {f : Feed α}

/-- No more is kept than was published. -/
def Sound (f : Feed α) : Prop := f.recent.length ≤ f.position

/-- From this place on there are these items and no others. Each is found at its place for as long
as it is kept. -/
structure Shows (f : Feed α) (place : Nat) (as : List α) : Prop where
  item : ∀ i a, as[i]? = some a → f.oldest ≤ place + i →
    f.read (place + i) = (.item a, place + i + 1)
  last : f.read (place + as.length) = (if f.live then .waiting else .closed, place + as.length)

theorem publishAll_cons (f : Feed α) (a : α) (as : List α) :
    (f.publishAll (a :: as)).1 = ((f.publish a).1.publishAll as).1 := rfl

theorem publishAll_append (f : Feed α) (as bs : List α) :
    (f.publishAll (as ++ bs)).1 = ((f.publishAll as).1.publishAll bs).1 := by
  induction as generalizing f with
  | nil => rfl
  | cons a as ih => exact ih _

theorem publish_eq (heard : 0 < f.subscribers) (a : α) :
    (f.publish a).1 =
      { f with recent := (f.recent ++ [a]).drop (f.recent.length + 1 - f.size)
               position := f.position + 1 } := by
  simp [publish, Nat.ne_of_gt heard]

/-- What is published is kept at the end, and some of the oldest may go for it. -/
theorem publishAll_eq (heard : 0 < f.subscribers) (as : List α) :
    ∃ lost ≤ f.recent.length + as.length, (f.publishAll as).1 =
      { f with recent := (f.recent ++ as).drop lost, position := f.position + as.length } := by
  induction as generalizing f with
  | nil => exact ⟨0, Nat.zero_le _, by simp [publishAll]⟩
  | cons a as ih =>
    have first := publish_eq heard a
    let lost := f.recent.length + 1 - f.size
    have part : lost ≤ (f.recent ++ [a]).length := by simp [lost]
    obtain ⟨more, le, rest⟩ := ih (f := (f.publish a).1) (by rw [first]; exact heard)
    rw [first] at le rest
    refine ⟨lost + more, ?_, ?_⟩
    · simp only [List.length_drop, List.length_append, List.length_singleton] at le part
      simp only [List.length_cons]
      omega
    · have all : f.recent ++ a :: as = f.recent ++ [a] ++ as := by simp
      rw [publishAll_cons, first, rest, ← List.drop_append_of_le_length part, List.drop_drop, all]
      simp only [lost, List.length_cons, Nat.add_assoc, Nat.add_comm 1]

theorem new_eq {capacity : Nat} (h : new capacity = .ok f) :
    f = ⟨capacity, sizeFor capacity, [], 0, 0, true⟩ := by
  unfold new at h
  split at h
  · cases h
  · split at h
    · cases h
    · cases room : Room.ofEvents (sizeFor capacity) with
      | error =>
        rw [room] at h
        cases h
      | ok =>
        rw [room] at h
        exact (Except.ok.inj h).symm

theorem sound_new {capacity : Nat} (h : new capacity = .ok f) : f.Sound := by
  rw [new_eq h]
  exact Nat.le_refl 0

theorem Sound.publish (h : f.Sound) (a : α) : (f.publish a).1.Sound := by
  unfold Sound at h ⊢
  by_cases heard : f.subscribers = 0
  · rw [Feed.publish, if_pos heard]
    exact h
  · rw [publish_eq (Nat.pos_of_ne_zero heard)]
    simp only [List.length_drop, List.length_append, List.length_singleton]
    omega

/-- Who subscribes finds at his place what is published from then on. -/
theorem shows_publishAll (h : f.Sound) (heard : 0 < f.subscribers) (as : List α) :
    (f.publishAll as).1.Shows f.position as := by
  obtain ⟨lost, le, after⟩ := publishAll_eq heard as
  unfold Sound at h
  rw [after]
  -- The item that comes as the `i`th is preceded by all that was kept before and by `i` more.
  have found : ∀ i, f.position + i - ({ f with
      recent := (f.recent ++ as).drop lost, position := f.position + as.length } : Feed α).oldest =
      f.recent.length + i - lost := by
    intro i
    simp only [oldest, List.length_drop, List.length_append]
    omega
  constructor
  · intro i a ha kept
    have inside : i < as.length := (List.getElem?_eq_some_iff.mp ha).1
    have late : lost ≤ f.recent.length + i := by
      simp only [oldest, List.length_drop, List.length_append] at kept
      omega
    have item : ((f.recent ++ as).drop lost)[f.recent.length + i - lost]? = some a := by
      rw [List.getElem?_drop, Nat.add_sub_cancel' late,
        List.getElem?_append_right (Nat.le_add_right _ _), Nat.add_sub_cancel_left, ha]
    rw [read, if_neg (Nat.not_lt.mpr kept), found, item]
  · have nothing : ((f.recent ++ as).drop lost)[f.recent.length + as.length - lost]? = none := by
      apply List.getElem?_eq_none
      simp
    have kept : ¬ f.position + as.length < Feed.oldest { f with
        recent := (f.recent ++ as).drop lost, position := f.position + as.length } := by
      simp only [oldest]
      omega
    rw [read, if_neg kept, found, nothing]

end Bourse.Feed
