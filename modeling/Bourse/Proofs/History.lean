import Bourse.History
import Mathlib.Data.List.DropRight

/-! The history holds the latest events, oldest first, as many as its limit says. Only a history
that may hold none does not keep to that: it makes room before it takes an event in and not after,
so it holds one. -/
namespace Bourse.History

variable {h : History} {past : List Event}

/-- How many events the history comes to hold. -/
def span (h : History) : Nat := max h.limit 1

/-- Of the events that were added these are the latest, as far as the history goes back. -/
def Recalls (h : History) (past : List Event) : Prop := h.events = past.rtake h.span

theorem length_rtake (past : List Event) (n : Nat) : (past.rtake n).length = min past.length n := by
  rw [List.rtake, List.length_drop]
  omega

theorem drop_one_rtake {n : Nat} (long : n + 1 ≤ past.length) :
    (past.rtake (n + 1)).drop 1 = past.rtake n := by
  rw [List.rtake, List.drop_drop, List.rtake]
  congr 1
  omega

theorem recalls_empty (limit : Nat) : (empty limit).Recalls [] := (List.rtake_nil _).symm

/-- What is kept beside a new event is one event less than the history comes to hold. -/
theorem Recalls.add (known : h.Recalls past) (e : Event) : (h.add e).Recalls (past ++ [e]) := by
  obtain ⟨n, span⟩ : ∃ n, h.span = n + 1 := ⟨h.span - 1, by unfold span; omega⟩
  have limit : max h.limit 1 = n + 1 := span
  have kept : (if h.events.length ≥ h.limit then h.events.drop 1 else h.events) =
      past.rtake n := by
    unfold Recalls at known
    rw [known, span, length_rtake]
    rcases Nat.lt_or_ge n past.length with long | short
    · rw [if_pos (by omega)]
      exact drop_one_rtake long
    · have whole : ∀ k, n ≤ k → past.rtake k = past := fun k far => by
        rw [List.rtake, Nat.sub_eq_zero_of_le (by omega), List.drop_zero]
      rw [whole n (Nat.le_refl n), whole (n + 1) (Nat.le_succ n)]
      split
      · -- Full and yet short of its limit can only be a history that may hold none.
        have none : past = [] := List.length_eq_zero_iff.mp (by omega)
        rw [none, List.drop_nil]
      · rfl
  change (if h.events.length ≥ h.limit then h.events.drop 1 else h.events) ++ [e] =
    (past ++ [e]).rtake h.span
  rw [kept, span, List.rtake_concat_succ]

theorem Recalls.addAll (known : h.Recalls past) (es : List Event) :
    (h.addAll es).Recalls (past ++ es) := by
  induction es generalizing h past with
  | nil =>
    rw [List.append_nil]
    exact known
  | cons e es ih =>
    have more := ih (known.add e)
    rw [List.append_assoc] at more
    exact more

theorem addAll_limit (h : History) (es : List Event) : (h.addAll es).limit = h.limit := by
  induction es generalizing h with
  | nil => rfl
  | cons e es ih => exact ih (h.add e)

/-- The latest events are those the limit allows just if it allows one, or there was none. -/
theorem rtake_span_iff {limit : Nat} {es : List Event} :
    es.rtake (max limit 1) = es.rtake limit ↔ 0 < limit ∨ es = [] := by
  constructor
  · intro same
    have lengths := congrArg List.length same
    rw [length_rtake, length_rtake] at lengths
    rcases Nat.eq_zero_or_pos limit with none | some
    · right
      apply List.length_eq_zero_iff.mp
      omega
    · exact .inl some
  · rintro (some | rfl)
    · rw [Nat.max_eq_left some]
    · rw [List.rtake_nil, List.rtake_nil]

/-- Whatever the limit, there is either no room for a history at all, or it always holds the latest
events and no others: as many as the limit allows, if that is one event or more, and otherwise the
last one. -/
theorem holds_latest_or_the_last_one (limit : Nat) :
    match History.new limit with
    | .error reason => reason = .memory ∧ Room.addressable ≤ limit
    | .ok h => limit < Room.addressable ∧ ∀ es : List Event,
      (h.addAll es).events = es.rtake (max limit 1) ∧
      ((h.addAll es).events = es.rtake limit ↔ 0 < limit ∨ es = []) ∧
      (h.addAll es).events.length = min es.length (max limit 1) := by
  rcases Nat.lt_or_ge limit Room.addressable with room | vast
  · have made : History.new limit = .ok (empty limit) := by
      rw [History.new, Room.ofEvents, if_pos room]
      rfl
    rw [made]
    refine ⟨room, fun es => ?_⟩
    have known : ((empty limit).addAll es).events = es.rtake (max limit 1) := by
      have all := (recalls_empty limit).addAll es
      unfold Recalls span at all
      rw [addAll_limit] at all
      exact all
    refine ⟨known, ?_, ?_⟩
    · rw [known]
      exact rtake_span_iff
    · rw [known, length_rtake]
  · have refused : History.new limit = .error .memory := by
      rw [History.new, Room.ofEvents, if_neg (Nat.not_lt_of_ge vast)]
      rfl
    rw [refused]
    exact ⟨rfl, vast⟩

/-- A history that may hold no event holds the last one. -/
theorem one_held_where_none_may_be :
    ∃ h, History.new 0 = .ok h ∧
      ∀ e : Event, (h.addAll [e]).events = [e] ∧ (h.addAll [e]).events ≠ [e].rtake 0 := by
  refine ⟨empty 0, rfl, fun e => ⟨rfl, ?_⟩⟩
  exact List.cons_ne_nil e []

end Bourse.History
