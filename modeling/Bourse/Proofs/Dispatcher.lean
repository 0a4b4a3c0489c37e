import Bourse.Dispatcher
import Bourse.Feed.Broadcast

/-! What handing an event out comes to for each handler, whichever others there are and whatever
they make of it. -/
namespace Bourse

/-- Whether the handler has asked for events of this kind. -/
def Handler.wants (h : Handler) (e : Event) : Bool := h.topics.contains e.kind.name

theorem Dispatcher.start_ok {d : Dispatcher} {f : Feed Event} {s : Dispatch}
    (started : (d.start f).2 = .ok s) : 0 < d.buffer ∧ s = ⟨f.position, none, [], [], []⟩ := by
  simp only [Dispatcher.start, Feed.subscribe, Room.ofQueue] at started
  split at started
  · simp [Except.map] at started
  · split at started
    · simp [Except.map] at started
    · simp only [Except.map, Except.ok.injEq] at started
      exact ⟨by omega, started.symm⟩

namespace Dispatch

variable {d : Dispatcher} {s : Dispatch} {e : Event} {k : Nat} {h : Handler}

/-- What of these deliveries is for one handler. -/
def addressed (k : Nat) (l : List (Nat × Event)) : List Event :=
  (l.filter fun x => x.1 == k).map (·.2)

theorem given_eq (s : Dispatch) (k : Nat) : s.given k = addressed k s.delivered := rfl

@[simp]
theorem addressed_nil (k : Nat) : addressed k [] = [] := rfl

@[simp]
theorem addressed_cons (k : Nat) (x : Nat × Event) (l : List (Nat × Event)) :
    addressed k (x :: l) = if x.1 = k then x.2 :: addressed k l else addressed k l := by
  by_cases here : x.1 = k <;> simp [addressed, here]

@[simp]
theorem addressed_append (k : Nat) (l m : List (Nat × Event)) :
    addressed k (l ++ m) = addressed k l ++ addressed k m := by
  simp [addressed]

theorem addressed_flatMap {α : Type} (k : Nat) (f : α → List (Nat × Event)) (l : List α) :
    addressed k (l.flatMap f) = l.flatMap fun a => addressed k (f a) := by
  induction l with
  | nil => rfl
  | cons a l ih => simp [ih]

/-- The deliveries an event calls for. -/
def duties (d : Dispatcher) (e : Event) : List (Nat × Event) :=
  (targets d e).map fun t => (t.2, e)

/-- Of what each handler gets, one handler's part. -/
theorem flatMap_zipIdx_at {β : Type} (part : Handler → List β) (hs : List Handler) (n k : Nat) :
    ((hs.zipIdx n).flatMap fun t => if t.2 = n + k then part t.1 else []) =
      hs[k]?.toList.flatMap part := by
  induction hs generalizing n k with
  | nil => simp
  | cons h hs ih =>
    cases k with
    | zero =>
      have others :
          ((hs.zipIdx (n + 1)).flatMap fun t => if t.2 = n then part t.1 else []) = [] := by
        rw [List.flatMap_eq_nil_iff]
        intro t ht
        have behind := (List.mem_zipIdx ht).1
        exact if_neg (by omega)
      simpa using others
    | succ k =>
      have next : n + (k + 1) = n + 1 + k := by omega
      have other : ¬ n = n + 1 + k := by omega
      simpa [next, other] using ih (n + 1) k

/-- A handler is due an event as often as it names the event's kind, whoever else wants it. -/
theorem addressed_duties (here : d.handlers[k]? = some h) (e : Event) :
    addressed k (duties d e) = List.replicate (h.topics.count e.kind.name) e := by
  have mine := flatMap_zipIdx_at (fun h => List.replicate (h.topics.count e.kind.name) e)
    d.handlers 0 k
  simp only [Nat.zero_add, here, Option.toList_some, List.flatMap_singleton] at mine
  rw [← mine, duties, targets, List.map_flatMap, addressed_flatMap]
  congr 1
  funext t
  by_cases at_k : t.2 = k <;> simp [addressed, at_k]

/-- A handler that names each kind once is due each event it wants, once. -/
theorem addressed_flatMap_duties (here : d.handlers[k]? = some h) (once : h.topics.Nodup)
    (es : List Event) : addressed k (es.flatMap (duties d)) = es.filter h.wants := by
  rw [addressed_flatMap]
  induction es with
  | nil => rfl
  | cons e es ih =>
    rw [List.flatMap_cons, ih, addressed_duties here, once.count]
    by_cases wanted : e.kind.name ∈ h.topics <;> simp [Handler.wants, wanted]

theorem receive_of_free (free : s.hand = none) (f : Feed Event) :
    (s.receive f).place = (f.read s.place).2 ∧
      (s.receive f).hand.toList = (f.passed s.place).filterMap id ∧
      (s.receive f).queue = s.queue ∧ (s.receive f).delivered = s.delivered := by
  cases read : f.read s.place with
  | mk what place => cases what <;> simp [receive, free, read, Feed.passed]

theorem receive_of_passed (free : s.hand = none) {f : Feed Event}
    (nothing : f.passed s.place = []) (still : (f.read s.place).2 = s.place) :
    s.receive f = s := by
  cases s
  simp only at free still nothing
  simp only [receive, free]
  cases read : f.read _ with
  | mk what place =>
    simp only [read] at still
    cases what with
    | item e => simp [Feed.passed, read] at nothing
    | lagged lost => simp [still]
    | waiting => simp [still]
    | closed => simp [still]

end Dispatch
end Bourse
