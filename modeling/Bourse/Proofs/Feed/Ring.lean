import Bourse.Feed.Broadcast
import Bourse.Proofs.Feed.Readers
import Mathlib.Algebra.Group.Nat.Defs

/-! What a feed keeps of all that was published to it, and what a reader finds there, whatever else
goes on at the feed. Of the items he is past, he was given each or was told that it is lost; and an
item is not lost before as many others have followed it as the feed keeps. -/
namespace Bourse

variable {α : Type}

namespace Feed

variable {f : Feed α} {log : List α} {place capacity : Nat}

/-- The items of the log were published to the feed, and it keeps the latest of them. -/
structure Keeps (f : Feed α) (log : List α) : Prop where
  position : f.position = log.length
  recent : f.recent = log.drop (log.length - f.size)

theorem Keeps.publish (h : f.Keeps log) (heard : 0 < f.subscribers) (a : α) :
    (f.publish a).1.Keeps (log ++ [a]) := by
  rw [publish_eq heard]
  constructor
  · simp [h.position]
  · have all : log.drop (log.length - f.size) ++ [a] = (log ++ [a]).drop (log.length - f.size) :=
      (List.drop_append_of_le_length (Nat.sub_le _ _)).symm
    simp only [h.recent, all, List.drop_drop, List.length_drop, List.length_append,
      List.length_singleton]
    congr 1
    omega

theorem Keeps.oldest (h : f.Keeps log) : f.oldest = log.length - f.size := by
  simp only [Feed.oldest, h.position, h.recent, List.length_drop]
  omega

theorem Keeps.read (h : f.Keeps log) (place : Nat) : f.read place =
    if place < log.length - f.size then
      (.lagged (log.length - f.size - place), log.length - f.size)
    else match log[place]? with
      | some a => (.item a, place + 1)
      | none => (if f.live then .waiting else .closed, place) := by
  rw [Feed.read, h.oldest]
  split
  · rfl
  · rename_i kept
    have found : f.recent[place - (log.length - f.size)]? = log[place]? := by
      rw [h.recent, List.getElem?_drop, Nat.add_sub_cancel' (Nat.le_of_not_lt kept)]
    cases entry : log[place]? <;> simp [found, entry]

theorem le_powerFrom (k p n : Nat) (enough : n ≤ p * 2 ^ k) : n ≤ powerFrom k p n := by
  induction k generalizing p with
  | zero => simpa [powerFrom] using enough
  | succ k ih =>
    rw [powerFrom]
    split
    · assumption
    · apply ih
      calc n ≤ p * (2 ^ k * 2) := enough
        _ = 2 * p * 2 ^ k := by rw [Nat.mul_comm (2 ^ k), ← Nat.mul_assoc, Nat.mul_comm p]

theorem le_sizeFor (capacity : Nat) : capacity ≤ sizeFor capacity := by
  apply le_powerFrom
  rw [Nat.one_mul]
  exact Nat.le_of_lt Nat.lt_two_pow_self

theorem Used.keeps (used : f.Used capacity) : capacity ≤ f.size ∧ ∃ log, f.Keeps log := by
  induction used with
  | new created =>
    rw [new_eq created]
    exact ⟨le_sizeFor capacity, [], rfl, List.drop_nil.symm⟩
  | @after f _ b ih =>
    obtain ⟨size, log, keeps⟩ := ih
    cases b with
    | publish a =>
      by_cases live : f.live = true
      · by_cases heard : f.subscribers = 0
        · have gone : f.after (.publish a) = f := by simp [Feed.after, live, Feed.publish, heard]
          rw [gone]
          exact ⟨size, log, keeps⟩
        · have heard := Nat.pos_of_ne_zero heard
          have taken : f.after (.publish a) = (f.publish a).1 := if_pos live
          rw [taken]
          refine ⟨?_, log ++ [a], keeps.publish heard a⟩
          rw [publish_eq heard]
          exact size
      · have still : f.after (.publish a) = f := if_neg live
        rw [still]
        exact ⟨size, log, keeps⟩
    | join => exact ⟨size, log, keeps.position, keeps.recent⟩
    | part => exact ⟨size, log, keeps.position, keeps.recent⟩
    | close => exact ⟨size, log, keeps.position, keeps.recent⟩

end Feed

namespace Broadcast

variable {b : Broadcast α} {first place capacity : Nat}

@[simp]
theorem given_look (b : Broadcast α) (place : Nat) :
    (b.look place).given = b.given ++ (b.feed.passed place).filterMap id :=
  List.filterMap_append

theorem unread_look (b : Broadcast α) (place : Nat) :
    (b.look place).unread = b.unread.drop (b.feed.passed place).length := by
  simp [Broadcast.unread, Broadcast.look]

/-- What the reader was told is so: he was given items as they were published, and none was lost to
him before as many others had followed it. -/
structure Honest (capacity : Nat) (b : Broadcast α) : Prop where
  within : b.past.length ≤ b.published.length
  told : ∀ (i : Nat) (p : Option α), b.past[i]? = some p → p = none ∨ p = b.published[i]?
  lost : ∀ i : Nat, b.past[i]? = some none → i + capacity < b.published.length

/-- The reader came at the `first` place and is at `place` now. The record is that of the feed. -/
structure Follows (b : Broadcast α) (first place : Nat) : Prop extends Honest b.feed.size b where
  heard : 0 < b.feed.subscribers
  keeps : ∃ log, log.length = first ∧ b.feed.Keeps (log ++ b.published)
  place : place = first + b.past.length

theorem Follows.honest (h : b.Follows first place) (size : capacity ≤ b.feed.size) :
    b.Honest capacity where
  within := h.within
  told := h.told
  lost i hi := by
    have behind := h.lost i hi
    omega

theorem follows_start {f : Feed α} (used : f.Used capacity) :
    (start f).Follows f.position f.position where
  within := Nat.le_refl 0
  told := by simp [start]
  lost := by simp [start]
  heard := Nat.succ_pos _
  keeps := by
    obtain ⟨-, log, keeps⟩ := used.keeps
    refine ⟨log, keeps.position.symm, ?_, ?_⟩
    · simpa [start, Feed.subscribe] using keeps.position
    · simpa [start, Feed.subscribe] using keeps.recent
  place := rfl

theorem Follows.publish (h : b.Follows first place) (a : α) :
    Follows { b with feed := (b.feed.publish a).1, published := b.published ++ [a] } first
      place := by
  have taken := Feed.publish_eq h.heard a
  constructor
  · constructor
    · have within := h.within
      simp only [List.length_append, List.length_singleton]
      omega
    · intro i p hi
      have inside : i < b.past.length := (List.getElem?_eq_some_iff.mp hi).1
      rw [List.getElem?_append_left (Nat.lt_of_lt_of_le inside h.within)]
      exact h.told i p hi
    · intro i hi
      have before := h.lost i hi
      simp only [taken, List.length_append, List.length_singleton]
      omega
  · rw [taken]
    exact h.heard
  · obtain ⟨log, length, keeps⟩ := h.keeps
    refine ⟨log, length, ?_⟩
    rw [← List.append_assoc]
    exact keeps.publish h.heard a
  · exact h.place

theorem Follows.of_feed (h : b.Follows first place) {f : Feed α} (heard : 0 < f.subscribers)
    (same : f.position = b.feed.position ∧ f.recent = b.feed.recent ∧ f.size = b.feed.size) :
    Follows { b with feed := f } first place := by
  obtain ⟨log, length, keeps⟩ := h.keeps
  obtain ⟨position, recent, size⟩ := same
  have honest := h.honest (Nat.le_of_eq size)
  refine ⟨⟨honest.within, honest.told, honest.lost⟩, heard, ⟨log, length, ?_, ?_⟩, h.place⟩
  · rw [position, keeps.position]
  · rw [recent, keeps.recent, size]

/-- Nothing that others do changes what the reader was told or how much is kept for him. -/
theorem Follows.after (h : b.Follows first place) (bustle : Bustle α) :
    (b.after bustle).Follows first place ∧ (b.after bustle).past = b.past ∧
      (b.after bustle).feed.size = b.feed.size := by
  cases bustle with
  | publish a =>
    by_cases live : b.feed.live = true
    · have taken : b.after (.publish a) =
          { b with feed := (b.feed.publish a).1, published := b.published ++ [a] } := by
        simp [Broadcast.after, Feed.after, live]
      rw [taken]
      exact ⟨h.publish a, rfl, by rw [Feed.publish_eq h.heard]⟩
    · have still : b.after (.publish a) = b := if_neg live
      rw [still]
      exact ⟨h, rfl, rfl⟩
  | join => exact ⟨h.of_feed (Nat.succ_pos _) ⟨rfl, rfl, rfl⟩, rfl, rfl⟩
  | part =>
    by_cases others : 1 < b.feed.subscribers
    · have gone : b.after .part = { b with feed := b.feed.unsubscribe } := if_pos others
      rw [gone]
      exact ⟨h.of_feed (Nat.sub_pos_of_lt others) ⟨rfl, rfl, rfl⟩, rfl, rfl⟩
    · have alone : b.after .part = b := if_neg others
      rw [alone]
      exact ⟨h, rfl, rfl⟩
  | close => exact ⟨h.of_feed h.heard ⟨rfl, rfl, rfl⟩, rfl, rfl⟩

/-- What the reader finds at his place: that items are lost to him, so many that the feed keeps just
those behind them; or the next item; or nothing, as he is past them all. -/
theorem Follows.read_cases (h : b.Follows first place) :
    (∃ n, b.feed.read place = (.lagged (n + 1), place + (n + 1)) ∧
      b.past.length + (n + 1) + b.feed.size = b.published.length) ∨
    (∃ a, b.feed.read place = (.item a, place + 1) ∧
      b.published[b.past.length]? = some a) ∨
    b.feed.read place = (if b.feed.live then .waiting else .closed, place) ∧
      b.past.length = b.published.length := by
  obtain ⟨log, length, keeps⟩ := h.keeps
  have within := h.within
  have here := h.place
  have behind : (log ++ b.published)[place]? = b.published[b.past.length]? := by
    rw [here, ← length, List.getElem?_append_right (Nat.le_add_right _ _),
      Nat.add_sub_cancel_left]
  rw [keeps.read, behind, List.length_append]
  by_cases late : b.past.length + b.feed.size < b.published.length
  · obtain ⟨n, gap⟩ := Nat.exists_eq_add_of_lt late
    have lost : log.length + b.published.length - b.feed.size = place + (n + 1) := by omega
    refine .inl ⟨n, ?_, by omega⟩
    rw [if_pos (by omega), lost, Nat.add_sub_cancel_left]
  · rw [if_neg (by omega)]
    cases found : b.published[b.past.length]? with
    | some a => exact .inr (.inl ⟨a, rfl, rfl⟩)
    | none => exact .inr (.inr ⟨rfl, Nat.le_antisymm within (List.getElem?_eq_none_iff.mp found)⟩)

/-- The reader comes to the end of a feed only where nobody publishes any more and nothing is left
to read. -/
theorem Follows.read_closed (h : b.Follows first place) :
    (b.feed.read place).1 = .closed ↔ b.feed.live = false ∧ b.unread = [] := by
  rw [Broadcast.unread, List.drop_eq_nil_iff]
  rcases h.read_cases with ⟨n, read, gap⟩ | ⟨a, read, next⟩ | ⟨read, all⟩
  · simp [read]
    omega
  · have behind := (List.getElem?_eq_some_iff.mp next).1
    simp [read, behind]
  · cases live : b.feed.live <;> simp [read, live, all]

/-- A look tells of the next item or of lost ones, unless the reader has come to the end. -/
theorem Follows.look_cases (h : b.Follows first place) :
    (∃ a, b.feed.passed place = [some a] ∧ b.unread = a :: (b.look place).unread) ∨
    (∃ n, b.feed.passed place = List.replicate (n + 1) none ∧ n < b.unread.length) ∨
    b.feed.passed place = [] ∧ (b.feed.read place).2 = place ∧ b.unread = [] := by
  rcases h.read_cases with ⟨n, read, gap⟩ | ⟨a, read, next⟩ | ⟨read, all⟩
  · refine .inr (.inl ⟨n, by simp [Feed.passed, read], ?_⟩)
    rw [Broadcast.unread, List.length_drop]
    omega
  · obtain ⟨inside, rfl⟩ := List.getElem?_eq_some_iff.mp next
    refine .inl ⟨b.published[b.past.length], by simp [Feed.passed, read], ?_⟩
    simp [Broadcast.unread, Broadcast.look, Feed.passed, read]
  · refine .inr (.inr ⟨?_, by rw [read], ?_⟩)
    · cases live : b.feed.live <;> simp [Feed.passed, read, live]
    · rw [Broadcast.unread, List.drop_eq_nil_iff]
      exact Nat.le_of_eq all.symm

theorem Follows.unread_of_passed (h : b.Follows first place) (told : b.feed.passed place = []) :
    b.unread = [] := by
  rcases h.look_cases with ⟨a, found, -⟩ | ⟨n, lost, -⟩ | ⟨-, -, read⟩
  · simp [told] at found
  · simp [told] at lost
  · exact read

theorem Follows.add (h : b.Follows first place) (more : List (Option α))
    (within : b.past.length + more.length ≤ b.published.length)
    (told : ∀ (i : Nat) (p : Option α), more[i]? = some p →
      p = none ∨ p = b.published[b.past.length + i]?)
    (lost : ∀ i : Nat, more[i]? = some none →
      b.past.length + i + b.feed.size < b.published.length) :
    Follows { b with past := b.past ++ more } first (place + more.length) := by
  refine ⟨⟨?_, fun i p hi => ?_, fun i hi => ?_⟩, h.heard, h.keeps, ?_⟩
  · simpa using within
  · rcases Nat.lt_or_ge i b.past.length with old | new
    · rw [List.getElem?_append_left old] at hi
      exact h.told i p hi
    · rw [List.getElem?_append_right new] at hi
      simpa [Nat.add_sub_cancel' new] using told _ p hi
  · rcases Nat.lt_or_ge i b.past.length with old | new
    · rw [List.getElem?_append_left old] at hi
      exact h.lost i hi
    · rw [List.getElem?_append_right new] at hi
      simpa [Nat.add_sub_cancel' new] using lost _ hi
  · simp [h.place, Nat.add_assoc]

theorem Follows.look (h : b.Follows first place) :
    (b.look place).Follows first (b.feed.read place).2 := by
  rcases h.read_cases with ⟨n, read, gap⟩ | ⟨a, read, next⟩ | ⟨read, -⟩
  · have moved := h.add (List.replicate (n + 1) none) (by simp; omega)
      (fun i p hi => .inl (List.eq_of_mem_replicate (List.mem_of_getElem? hi)))
      (fun i hi => by
        have inside := (List.getElem?_eq_some_iff.mp hi).1
        rw [List.length_replicate] at inside
        omega)
    simpa [Broadcast.look, Feed.passed, read] using moved
  · have only (i : Nat) (p : Option α) (hi : [some a][i]? = some p) : i = 0 ∧ p = some a := by
      cases i with
      | zero => exact ⟨rfl, (Option.some.inj hi).symm⟩
      | succ i => cases hi
    have moved := h.add [some a] (List.getElem?_eq_some_iff.mp next).1
      (fun i p hi => .inr (by
        obtain ⟨rfl, rfl⟩ := only i p hi
        exact next.symm))
      (fun i hi => by cases (only i none hi).2)
    simpa [Broadcast.look, Feed.passed, read] using moved
  · have still := h.add [] h.within (by simp) (by simp)
    cases live : b.feed.live <;> simpa [Broadcast.look, Feed.passed, read, live] using still

end Broadcast
end Bourse
