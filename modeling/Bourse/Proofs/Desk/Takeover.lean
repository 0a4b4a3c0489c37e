import Bourse.Proofs.Desk.Restart
import Bourse.Proofs.Engine.Twins

/-! Runs of a desk with restarts in between. A desk that starts over the records of another answers
as the other would have gone on to answer, and as a desk that never was restarted does. -/
namespace Bourse

def Depth.seen (v : View) (d : Depth) : Depth := { d with time := v.time d.time }

def Reply.seen (v : View) : Reply → Reply
  | .execution x => .execution (x.seen v)
  | .cancelled o => .cancelled (o.map (·.seen v))
  | .order o => .order (o.map (·.seen v))
  | .depth d => .depth (d.seen v)

/-- Sequences renamed, and nothing else. -/
def View.exact (f : Nat → Nat) : View := ⟨f, id, id⟩

section Answers

variable {v : View} {e e₀ e' e₀' : Engine} {s s₀ s' s₀' : Store} {m m₀ : Moment} {c : Command}
  {r r₀ : Except Rejection Reply}

theorem depth_seen (v : View) (l : Ladder) (limit : Nat) :
    ((l.seen v).levels.take limit).map Level.summary = (l.levels.take limit).map Level.summary := by
  have summary : ∀ l : Level, (l.seen v).summary = l.summary := fun l => by
    simp [Level.summary, Level.seen]
  rw [Ladder.seen, ← List.map_take, List.map_map]
  exact List.map_congr_left fun l _ => summary l

theorem Engine.Twin.depth (h : Twin v e e₀) (limit : Nat) (alike : m.seen v = m₀.seen v) :
    (e.book.depth limit m.now).seen v = (e₀.book.depth limit m₀.now).seen v.plain := by
  have bids := depth_seen v e.book.bids limit
  have asks := depth_seen v e.book.asks limit
  have time : v.time m.now = v.time m₀.now := congrArg Moment.now alike
  have buy : e.book.bids.seen v = e₀.book.bids.seen v.plain := h.ladders .buy
  have sell : e.book.asks.seen v = e₀.book.asks.seen v.plain := h.ladders .sell
  rw [buy, depth_seen] at bids
  rw [sell, depth_seen] at asks
  simp only [Depth.seen, Book.depth, Depth.capture, ← bids, ← asks, time]
  rfl

/-- An id rests in both or in neither. -/
theorem Engine.Twin.rests (h : Twin v e e₀) (id : OrderId) :
    (∃ o ∈ e.book.orders, o.id = id) ↔ ∃ o ∈ e₀.book.orders, o.id = id := by
  have ids := congrArg (List.map Order.id) h.orders
  rw [List.map_map, List.map_map] at ids
  change e.book.orders.map (·.id) = e₀.book.orders.map (·.id) at ids
  rw [← List.mem_map, ← List.mem_map, ids]

/-- Twins answer every command alike and stay twins. -/
theorem Engine.Twin.handled (h : Twin v e e₀) (alike : m.seen v = m₀.seen v)
    (f : Handled e s m c r e' s') (f₀ : Handled e₀ s₀ m₀ c r₀ e₀' s₀') :
    Twin v e' e₀' ∧ r.map (·.seen v) = r₀.map (·.seen v.plain) := by
  cases f with
  | rejected rejected =>
    rw [h.rejection?] at rejected
    cases f₀ with
    | rejected rejected₀ =>
      rw [rejected] at rejected₀
      cases rejected₀
      exact ⟨h, rfl⟩
    | accepted accepted => simp [accepted] at rejected
  | @accepted o x e' accepted a hx =>
    rw [h.rejection?] at accepted
    cases f₀ with
    | rejected rejected => simp [accepted] at rejected
    | accepted _ a₀ hx₀ =>
      refine ⟨h.accepted alike a a₀, ?_⟩
      have fills : (e.matchOf o m).fills.map (·.seen v) =
          (e₀.matchOf o m₀).fills.map (·.seen v.plain) := congrArg Matched.fills (h.matched alike o)
      simp only [hx, hx₀, Except.map, Reply.seen, Execution.seen, h.settled alike, fills]
  | @cancelled id o gone e' here same c hg =>
    cases f₀ with
    | @cancelled _ o₀ gone₀ e₀' here₀ same₀ c₀ hg₀ =>
      have like := h.like_of_id here here₀ (same₀.trans same.symm)
      have time : v.time m.now = v.time m₀.now := congrArg Moment.now alike
      refine ⟨h.cancelled like c c₀, ?_⟩
      simp only [hg, hg₀, Except.map, Reply.seen, Option.map_some, Order.seen_cancelled like time]
    | absent absent =>
      obtain ⟨x, hx, there⟩ := (h.rests id).mp ⟨o, here, same⟩
      exact absurd there (absent x hx)
  | @absent id absent =>
    cases f₀ with
    | @cancelled _ o₀ gone₀ e₀' here₀ same₀ =>
      obtain ⟨x, hx, there⟩ := (h.rests id).mpr ⟨o₀, here₀, same₀⟩
      exact absurd there (absent x hx)
    | absent => exact ⟨h, rfl⟩
  | @best side =>
    cases f₀ with
    | best =>
      refine ⟨h, ?_⟩
      simp only [Except.map, Reply.seen, ← List.head?_map, h.queues]
  | @found id =>
    cases f₀ with
    | found =>
      refine ⟨h, ?_⟩
      have find : ∀ (w : View) (os : List Order), (os.find? (·.id == id)).map (·.seen w) =
          (os.map (·.seen w)).find? (·.id == id) := fun w os => by
        rw [List.find?_map]
        rfl
      simp only [Except.map, Reply.seen, find, h.orders]
  | @depth limit =>
    cases f₀ with
    | depth =>
      refine ⟨h, ?_⟩
      simp only [Except.map, Reply.seen, h.depth limit alike]

end Answers

/-- What befalls a desk: a command, or that it stops and another one starts over its records, with a
feed of its own. -/
inductive Turn where
  | command (c : Command)
  | restart (feed : Feed Event)

def Turn.isCommand : Turn → Bool
  | command _ => true
  | restart _ => false

namespace Desk

/-- Some turns, with the replies to the commands among them. The clock tells the moment of each
command by its number. -/
def work (d : Desk) (clock : Nat → Moment) :
    List Turn → Except Fault (Desk × List (Except Rejection Reply))
  | [] => .ok (d, [])
  | .command c :: ts => do
    let (d, r) ← d.handle c (clock 0)
    let (d, rs) ← d.work (fun n => clock (n + 1)) ts
    return (d, r :: rs)
  | .restart feed :: ts => do
    let d ← start d.store feed
    d.work clock ts

theorem work_command {d d' : Desk} {clock : Nat → Moment} {c : Command} {ts : List Turn}
    {rs : List (Except Rejection Reply)} (h : d.work clock (.command c :: ts) = .ok (d', rs)) :
    ∃ d₁ r rs', d.handle c (clock 0) = .ok (d₁, r) ∧
      d₁.work (fun n => clock (n + 1)) ts = .ok (d', rs') ∧ rs = r :: rs' := by
  rw [work] at h
  cases first : d.handle c (clock 0) with
  | error =>
    rw [first] at h
    cases h
  | ok p =>
    cases more : p.1.work (fun n => clock (n + 1)) ts with
    | error =>
      simp only [first, more, ok_bind] at h
      cases h
    | ok q =>
      simp only [first, more, ok_bind] at h
      cases h
      exact ⟨p.1, p.2, q.2, rfl, more, rfl⟩

/-- Whatever commands are given to both desks, the replies look the same. -/
def AnswersAlike (v v₀ : View) (clock clock₀ : Nat → Moment) (d d₀ : Desk) : Prop :=
  ∀ cs : List Command, ∃ d' rs d₀' rs₀,
    d.work clock (cs.map .command) = .ok (d', rs) ∧
    d₀.work clock₀ (cs.map .command) = .ok (d₀', rs₀) ∧
    rs.map (·.map (·.seen v)) = rs₀.map (·.map (·.seen v₀))

variable {v : View} {d d₀ : Desk} {clock clock₀ : Nat → Moment}

/-- Desks whose engines are twins reply alike to any commands, and their engines stay twins. -/
theorem work_of_twin (h : Engine.Twin v d.engine d₀.engine)
    (alike : ∀ n, (clock n).seen v = (clock₀ n).seen v) (cs : List Command) :
    ∃ d' rs d₀' rs₀, d.work clock (cs.map .command) = .ok (d', rs) ∧
      d₀.work clock₀ (cs.map .command) = .ok (d₀', rs₀) ∧
      rs.map (·.map (·.seen v)) = rs₀.map (·.map (·.seen v.plain)) ∧
      Engine.Twin v d'.engine d₀'.engine := by
  induction cs generalizing d d₀ clock clock₀ with
  | nil => exact ⟨d, [], d₀, [], rfl, rfl, rfl, h⟩
  | cons c cs ih =>
    obtain ⟨d₁, r, hok, f⟩ := d.handle_spec h.sound c (clock 0)
    obtain ⟨d₂, r₀, hok₀, f₀⟩ := d₀.handle_spec h.sound₀ c (clock₀ 0)
    obtain ⟨twin, same⟩ := h.handled (alike 0) f f₀
    obtain ⟨d', rs, d₀', rs₀, more, more₀, others, last⟩ := ih twin fun n => alike (n + 1)
    refine ⟨d', r :: rs, d₀', r₀ :: rs₀, ?_, ?_, ?_, last⟩
    · simp [work, hok, more]
    · simp [work, hok₀, more₀]
    · rw [List.map_cons, List.map_cons, same, others]

theorem answers_alike_of_twin (h : Engine.Twin v d.engine d₀.engine)
    (alike : ∀ n, (clock n).seen v = (clock₀ n).seen v) :
    AnswersAlike v v.plain clock clock₀ d d₀ := by
  intro cs
  obtain ⟨d', rs, d₀', rs₀, hok, hok₀, same, -⟩ := work_of_twin h alike cs
  exact ⟨d', rs, d₀', rs₀, hok, hok₀, same⟩

/-- A desk with restarts in its past, and one that was given the same commands but no restarts. -/
structure Followed (d d₀ : Desk) : Prop where
  records : Records d.store d.engine
  records₀ : Records d₀.store d₀.engine
  twin : ∃ f, Engine.Twin (.timeless f) d.engine d₀.engine

theorem Followed.work (h : Followed d d₀) (ts : List Turn) (clock clock₀ : Nat → Moment) :
    ∃ d' rs d₀' rs₀, d.work clock ts = .ok (d', rs) ∧
      d₀.work clock₀ (ts.filter Turn.isCommand) = .ok (d₀', rs₀) ∧ Followed d' d₀' := by
  induction ts generalizing d d₀ clock clock₀ with
  | nil => exact ⟨d, [], d₀, [], rfl, rfl, h⟩
  | cons t ts ih =>
    obtain ⟨f, twin⟩ := h.twin
    cases t with
    | command c =>
      obtain ⟨d₁, r, hok, done⟩ := d.handle_spec h.records.sound c (clock 0)
      obtain ⟨d₂, r₀, hok₀, done₀⟩ := d₀.handle_spec h.records₀.sound c (clock₀ 0)
      have alike : (clock 0).seen (.timeless f) = (clock₀ 0).seen (.timeless f) := rfl
      have next : Followed d₁ d₂ :=
        ⟨done.records h.records, done₀.records h.records₀, f, (twin.handled alike done done₀).1⟩
      obtain ⟨d', rs, d₀', rs₀, more, more₀, last⟩ :=
        ih next (fun n => clock (n + 1)) fun n => clock₀ (n + 1)
      refine ⟨d', r :: rs, d₀', r₀ :: rs₀, ?_, ?_, last⟩
      · simp [Desk.work, hok, more]
      · simp [List.filter, Turn.isCommand, Desk.work, hok₀, more₀]
    | restart feed =>
      -- Only the desk on the left restarts; its renaming so far is carried on from the new counter.
      obtain ⟨d₁, hok, again⟩ := h.records.start feed
      have next : Followed d₁ d₀ :=
        ⟨again.records, h.records₀, _, twin.renumbered again.records.sound again.ladders
          again.nextTrade again.nextSequence⟩
      obtain ⟨d', rs, d₀', rs₀, more, more₀, last⟩ := ih next clock clock₀
      refine ⟨d', rs, d₀', rs₀, ?_, ?_, last⟩
      · simp [Desk.work, hok, more]
      · simpa [List.filter, Turn.isCommand] using more₀

/-- The desk has taken over from another: the same orders in the same queues with every field as it
was, and the same next trade number. It answers as the other would have gone on to answer, but for
the sequences from its counter on, which stand in the same order: exactly so by the same clock, and
by any other but for its readings and the trade ids. -/
structure TookOver (d d' : Desk) : Prop where
  bids : d'.engine.book.bids = d.engine.book.bids
  asks : d'.engine.book.asks = d.engine.book.asks
  nextTrade : d'.engine.nextTrade = d.engine.nextTrade
  inOrder : StrictMono (renumber id d'.engine.nextSequence d.engine.nextSequence)
  kept : ∀ o ∈ d.engine.book.orders,
    renumber id d'.engine.nextSequence d.engine.nextSequence o.sequence = o.sequence
  answers : ∀ clock,
    AnswersAlike (.exact (renumber id d'.engine.nextSequence d.engine.nextSequence))
      (.exact id) clock clock d' d
  answersLater : ∀ clock clock₀,
    AnswersAlike (.timeless (renumber id d'.engine.nextSequence d.engine.nextSequence))
      (.timeless id) clock clock₀ d' d

theorem tookOver {d' : Desk} (h : Restarted d.engine d') (sound : d.engine.Sound) :
    TookOver d d' := by
  have twin : ∀ time tradeId, Engine.Twin
      ⟨renumber id d'.engine.nextSequence d.engine.nextSequence, time, tradeId⟩
      d'.engine d.engine := fun time tradeId =>
    (Engine.Twin.refl sound rfl).renumbered h.records.sound h.ladders h.nextTrade h.nextSequence
  exact
    { bids := h.ladders .buy
      asks := h.ladders .sell
      nextTrade := h.nextTrade
      inOrder := (twin id id).mono
      kept := by
        intro o ho
        rw [← h.orders] at ho
        exact if_pos (h.records.sound.numbered o ho).2
      answers := fun clock => answers_alike_of_twin (twin id id) fun _ => rfl
      answersLater := fun clock clock₀ => answers_alike_of_twin (twin _ _) fun _ => rfl }

/-- After any commands and restarts comes one more restart. The desk that then starts takes over
from the last one, and it answers every further command as a desk that never was restarted, but for
clock readings, trade ids and a renaming of sequences that keeps their order. -/
theorem restart_unnoticed (feed : Feed Event) (past : List Turn) (clock clock₀ : Nat → Moment) :
    ∃ first d rs never rs₀,
      start (.ofLedger .empty) feed = .ok first ∧
      first.work clock past = .ok (d, rs) ∧
      first.work clock₀ (past.filter Turn.isCommand) = .ok (never, rs₀) ∧
      ∀ feed', ∃ d', start d.store feed' = .ok d' ∧ TookOver d d' ∧
        ∃ f, StrictMono f ∧ ∀ now now₀,
          AnswersAlike (.timeless f) (.timeless id) now now₀ d' never := by
  obtain ⟨first, started, again⟩ := records_new.start feed
  have same : Followed first first :=
    ⟨again.records, again.records, id, .refl again.records.sound rfl⟩
  obtain ⟨d, rs, never, rs₀, worked, worked₀, followed⟩ := same.work past clock clock₀
  refine ⟨first, d, rs, never, rs₀, started, worked, worked₀, fun feed' => ?_⟩
  obtain ⟨d', restarted, back⟩ := followed.records.start feed'
  obtain ⟨f, twin⟩ := followed.twin
  have always := twin.renumbered back.records.sound back.ladders back.nextTrade back.nextSequence
  exact ⟨d', restarted, tookOver back followed.records.sound, _, always.mono,
    fun now now₀ => answers_alike_of_twin always fun _ => rfl⟩

end Desk
end Bourse
