import Bourse.Proofs.Dispatcher
import Bourse.Proofs.Feed.Ring
import Bourse.Relay
import Bourse.Sum

/-! What becomes of the events that a dispatcher reads. In any interleaving of its tasks with what
others do, each event it reads is at one place, and each handler is given those it wants, once and
in order. -/
namespace Bourse.Relay

open Dispatch

variable {d : Dispatcher} {r : Relay} {first capacity : Nat}

/-- Every event read is waiting or was taken, and every delivery an event calls for that was taken
is made or due. -/
structure Kept (d : Dispatcher) (capacity first : Nat) (r : Relay) : Prop where
  follows : r.broadcast.Follows first r.dispatch.place
  size : capacity ≤ r.broadcast.feed.size
  read : r.broadcast.given = r.taken ++ r.waiting
  room : r.dispatch.queue.length ≤ d.buffer
  handed : r.dispatch.delivered ++ r.owed = r.taken.flatMap (duties d)

theorem kept_start {f : Feed Event} {s : Dispatch} (used : f.Used capacity)
    (started : (d.start f).2 = .ok s) : (start f s).Kept d capacity f.position := by
  rw [(Dispatcher.start_ok started).2]
  exact ⟨Broadcast.follows_start used, used.keeps.1, rfl, Nat.zero_le _, rfl⟩

theorem Kept.around (h : r.Kept d capacity first) (b : Bustle Event) :
    (r.act d (.around b)).Kept d capacity first := by
  obtain ⟨follows, past, size⟩ := h.follows.after b
  have read : (r.broadcast.after b).given = r.broadcast.given := by
    simp [Broadcast.given, past]
  exact ⟨follows, size ▸ h.size, read.trans h.read, h.room, h.handed⟩

theorem Kept.receive (h : r.Kept d capacity first) : r.receive.Kept d capacity first := by
  cases hand : r.dispatch.hand with
  | some e => simpa [Relay.receive, hand] using h
  | none =>
    obtain ⟨place, next, queue, delivered⟩ := receive_of_free hand r.broadcast.feed
    simp only [Relay.receive, hand]
    constructor
    · rw [place]
      exact h.follows.look
    · exact h.size
    · have read := h.read
      simp only [waiting, hand, Option.toList_none, List.append_nil] at read
      simp [waiting, queue, next, read]
    · simpa [queue] using h.room
    · simpa [delivered, owed] using h.handed

theorem Kept.stow (h : r.Kept d capacity first) :
    { r with dispatch := r.dispatch.stow d }.Kept d capacity first := by
  cases hand : r.dispatch.hand with
  | none => simpa [Dispatch.stow, hand] using h
  | some e =>
    by_cases room : r.dispatch.queue.length < d.buffer
    · simp only [Dispatch.stow, hand, if_pos room]
      constructor
      · exact h.follows
      · exact h.size
      · simpa [waiting, hand] using h.read
      · simpa using Nat.succ_le_of_lt room
      · exact h.handed
    · simpa [Dispatch.stow, hand, room] using h

theorem Kept.take (h : r.Kept d capacity first) : (r.take d).Kept d capacity first := by
  cases due : r.due with
  | cons x due => simpa [Relay.take, due] using h
  | nil =>
    cases queue : r.dispatch.queue with
    | nil => simpa [Relay.take, due, queue] using h
    | cons e queue' =>
      have room := h.room
      have handed := h.handed
      simp only [owed, due, List.map_nil, List.append_nil] at handed
      simp only [Relay.take, due, queue]
      constructor
      · exact h.follows
      · exact h.size
      · simpa [waiting, queue] using h.read
      · simp only [queue, List.length_cons] at room
        exact Nat.le_of_succ_le room
      · simp [owed, handed, duties, Function.comp_def]

theorem Kept.hand (h : r.Kept d capacity first) : r.hand.Kept d capacity first := by
  cases due : r.due with
  | nil => simpa [Relay.hand, due] using h
  | cons x due' =>
    have handed := h.handed
    simp only [Relay.hand, due]
    constructor
    · exact h.follows
    · exact h.size
    · exact h.read
    · exact h.room
    · simpa [owed, due, deliver] using handed

theorem Kept.act (h : r.Kept d capacity first) (a : Act) :
    (r.act d a).Kept d capacity first := by
  cases a with
  | around b => exact h.around b
  | receive => exact h.receive
  | stow => exact h.stow
  | take => exact h.take
  | hand => exact h.hand

theorem Kept.run (h : r.Kept d capacity first) (acts : List Act) :
    (r.run d acts).Kept d capacity first := by
  induction acts generalizing r with
  | nil => exact h
  | cons a acts ih => exact ih (h.act a)

theorem Kept.kept (h : r.Kept d capacity first) :
    r.broadcast.kept = r.taken ++ r.waiting ++ r.broadcast.unread := by
  rw [Broadcast.kept, h.read]

theorem Kept.share (h : r.Kept d capacity first) {k : Nat} {x : Handler}
    (here : d.handlers[k]? = some x) (once : x.topics.Nodup) :
    r.dispatch.given k ++ addressed k r.owed = r.taken.filter x.wants := by
  rw [given_eq, ← addressed_append, h.handed, addressed_flatMap_duties here once]

theorem Kept.given_prefix (h : r.Kept d capacity first) {k : Nat} {x : Handler}
    (here : d.handlers[k]? = some x) (once : x.topics.Nodup) :
    r.dispatch.given k <+: r.broadcast.kept.filter x.wants := by
  rw [h.kept, List.append_assoc, List.filter_append, ← h.share here once, List.append_assoc]
  exact List.prefix_append _ _

/-- Where nothing is left to do, nothing is left that was not delivered. -/
theorem Kept.rests (h : r.Kept d capacity first) (room : 0 < d.buffer) (rests : r.Rests d) :
    r.due = [] ∧ r.waiting = [] ∧ r.broadcast.unread = [] := by
  have due : r.due = [] := by
    cases due : r.due with
    | nil => rfl
    | cons x rest =>
      have handed := congrArg Relay.due (rests .hand (by simp))
      simp [Relay.act, Relay.hand, due] at handed
  have queue : r.dispatch.queue = [] := by
    cases queue : r.dispatch.queue with
    | nil => rfl
    | cons e rest =>
      have taken := congrArg Relay.taken (rests .take (by simp))
      simp [Relay.act, Relay.take, due, queue] at taken
  have hand : r.dispatch.hand = none := by
    cases hand : r.dispatch.hand with
    | none => rfl
    | some e =>
      have stowed := congrArg (·.dispatch.hand) (rests .stow (by simp))
      simp [Relay.act, Dispatch.stow, hand, queue, room] at stowed
  have unread : r.broadcast.unread = [] := by
    have looked := congrArg (·.broadcast.past) (rests .receive (by simp))
    simp only [Relay.act, Relay.receive, hand, Broadcast.look, List.append_right_eq_self] at looked
    exact h.follows.unread_of_passed looked
  exact ⟨due, by simp [waiting, queue, hand], unread⟩

theorem Kept.given_of_rests (h : r.Kept d capacity first) (room : 0 < d.buffer)
    (rests : r.Rests d) {k : Nat} {x : Handler} (here : d.handlers[k]? = some x)
    (once : x.topics.Nodup) : r.dispatch.given k = r.broadcast.kept.filter x.wants := by
  obtain ⟨due, waiting, unread⟩ := h.rests room rests
  have share := h.share here once
  simpa [h.kept, waiting, unread, owed, due] using share

/-- The steps still to be made: each event has to be read, stowed, taken and handed out. -/
def toDo (d : Dispatcher) (r : Relay) : Nat :=
  sumOf (fun e => (duties d e).length + 3) r.broadcast.unread +
    sumOf (fun e => (duties d e).length + 2) r.dispatch.hand.toList +
    sumOf (fun e => (duties d e).length + 1) r.dispatch.queue + r.due.length

/-- A step of either task does nothing or leaves less to do. -/
theorem Kept.toDo_lt (h : r.Kept d capacity first) {a : Act}
    (task : a ∈ [Act.receive, .stow, .take, .hand]) (moves : r.act d a ≠ r) :
    (r.act d a).toDo d < r.toDo d := by
  simp only [List.mem_cons, List.not_mem_nil, or_false] at task
  rcases task with rfl | rfl | rfl | rfl
  · cases free : r.dispatch.hand with
    | some e => simp [Relay.act, Relay.receive, free] at moves
    | none =>
      obtain ⟨-, hand, queue, -⟩ := receive_of_free free r.broadcast.feed
      rcases h.follows.look_cases with ⟨e, found, unread⟩ | ⟨n, lost, within⟩ |
        ⟨nothing, still, -⟩
      · simp [Relay.act, Relay.receive, free, toDo, hand, queue, found, unread]
        omega
      · obtain ⟨e, rest, unread⟩ := List.exists_cons_of_length_pos (Nat.zero_lt_of_lt within)
        have left : (r.broadcast.look r.dispatch.place).unread = rest.drop n := by
          simp [Broadcast.unread_look, lost, unread]
        have fewer := sumOf_drop_le (fun e => (duties d e).length + 3) n rest
        simp [Relay.act, Relay.receive, free, toDo, hand, queue, lost, left, unread]
        omega
      · have same := receive_of_passed free nothing still
        simp [Relay.act, Relay.receive, free, same, Broadcast.look, nothing] at moves
  · cases hand : r.dispatch.hand with
    | none => simp [Relay.act, Dispatch.stow, hand] at moves
    | some e =>
      by_cases room : r.dispatch.queue.length < d.buffer
      · simp [Relay.act, Dispatch.stow, hand, room, toDo]
        omega
      · simp [Relay.act, Dispatch.stow, hand, room] at moves
  · cases due : r.due with
    | cons x due => simp [Relay.act, Relay.take, due] at moves
    | nil =>
      cases queue : r.dispatch.queue with
      | nil => simp [Relay.act, Relay.take, due, queue] at moves
      | cons e rest =>
        simp [Relay.act, Relay.take, due, queue, toDo, duties]
        omega
  · cases due : r.due with
    | nil => simp [Relay.act, Relay.hand, due] at moves
    | cons x rest => simp [Relay.act, Relay.hand, due, toDo, deliver]

/-- What holds of a dispatcher at any moment. Of the events published since its start, those not
lost are taken, waiting or unread; the deliveries that those taken call for are made or due; each
handler was given the events it wants, once and in order, and at rest there is none it was not
given; and rest comes nearer with every step. -/
structure InOrder (d : Dispatcher) (capacity : Nat) (r : Relay) : Prop where
  record : r.broadcast.Honest capacity
  whole : r.broadcast.kept = r.taken ++ r.waiting ++ r.broadcast.unread
  room : r.dispatch.queue.length ≤ d.buffer
  handed : r.dispatch.delivered ++ r.owed = r.taken.flatMap (duties d)
  share (k : Nat) (x : Handler) : d.handlers[k]? = some x →
    r.dispatch.given k ++ addressed k r.owed = r.taken.filter x.wants
  given (k : Nat) (x : Handler) : d.handlers[k]? = some x →
    r.dispatch.given k <+: r.broadcast.kept.filter x.wants
  rest (k : Nat) (x : Handler) : r.Rests d → d.handlers[k]? = some x →
    r.dispatch.given k = r.broadcast.kept.filter x.wants
  nearer (a : Act) : a ∈ [Act.receive, .stow, .take, .hand] → r.act d a ≠ r →
    (r.act d a).toDo d < r.toDo d

theorem Kept.inOrder (h : r.Kept d capacity first) (room : 0 < d.buffer)
    (once : ∀ x ∈ d.handlers, x.topics.Nodup) : r.InOrder d capacity where
  record := h.follows.honest h.size
  whole := h.kept
  room := h.room
  handed := h.handed
  share _ _ here := h.share here (once _ (List.mem_of_getElem? here))
  given _ _ here := h.given_prefix here (once _ (List.mem_of_getElem? here))
  rest _ _ rests here := h.given_of_rests room rests here (once _ (List.mem_of_getElem? here))
  nearer _ task moves := h.toDo_lt task moves

end Bourse.Relay
