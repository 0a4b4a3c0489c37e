import Bourse.Feed.Watch
import Bourse.Proofs.Feed.Ring

/-! The account of a reader of trades. Whatever happens between his looks, and however often he
gives up waiting, he has been given each trade among the items that were not lost to him, once and
in order, and has counted those that were lost. -/
namespace Bourse

def Found.items {α : Type} : Found α → List α
  | .item a => [a]
  | _ => []

namespace TradeReader

variable {f : Feed Event} {r : TradeReader}

theorem seek_one (f : Feed Event) (r : TradeReader) : r.seek f 1 =
    match f.read r.place with
    | (.item e, place) =>
      match e.trade? with
      | some t => (.item t, { r with place })
      | none => (.waiting, { r with place })
    | (.lagged lost, place) => (.waiting, ⟨place, r.lagged + lost⟩)
    | (.waiting, _) => (.waiting, r)
    | (.closed, _) => (.closed, r) := by
  rw [seek]
  rfl

/-- To seek is to look once, and to seek on unless there is something to return. -/
theorem seek_succ (f : Feed Event) (n : Nat) (r : TradeReader) : r.seek f (n + 1) =
    match r.seek f 1 with
    | (.waiting, r) => r.seek f n
    | found => found := by
  rw [seek_one, seek]
  cases found : f.read r.place with
  | mk what place =>
    cases what with
    | item e =>
      dsimp only
      cases e.trade? <;> rfl
    | lagged lost => rfl
    | waiting =>
      cases n with
      | zero => rfl
      | succ n => simp [seek, found]
    | closed => rfl

theorem seek_one_ne_lagged (f : Feed Event) (r : TradeReader) (n : Nat) :
    (r.seek f 1).1 ≠ .lagged n := by
  rw [seek_one]
  split
  · rename_i e _ _
    cases e.trade? <;> simp
  all_goals simp

/-- A look takes the reader where a reading of the feed does. He finds a trade that it tells of, and
counts what it tells to be lost. -/
theorem seek_one_spec (f : Feed Event) (r : TradeReader) :
    (r.seek f 1).2.place = (f.read r.place).2 ∧
    (r.seek f 1).2.lagged = r.lagged + (f.passed r.place).count none ∧
    (r.seek f 1).1.items = ((f.passed r.place).filterMap id).filterMap Event.trade? ∧
    ((r.seek f 1).1 = .closed ↔ (f.read r.place).1 = .closed) := by
  rw [seek_one, Feed.passed]
  by_cases late : r.place < f.oldest
  · simp [Feed.read, late, Found.items]
  · cases found : f.recent[r.place - f.oldest]? with
    | some e => cases traded : e.trade? <;> simp [Feed.read, late, found, traded, Found.items]
    | none => cases live : f.live <;> simp [Feed.read, late, found, live, Found.items]

end TradeReader

namespace Watch

variable {w : Watch} {first capacity : Nat}

/-- Of the events published since the reader came, those he is past were either given to him or
lost, the lost ones not before `capacity` others had followed. The trades among those given are what
his calls have returned, and the lost ones are counted. -/
structure Accounted (capacity first : Nat) (w : Watch) : Prop where
  place : w.reader.place = first + w.broadcast.past.length
  record : w.broadcast.Honest capacity
  trades : w.trades = w.broadcast.given.filterMap Event.trade?
  lagged : w.reader.lagged = w.broadcast.past.count none

/-- What is kept on the way, of which the account is a part. -/
structure Kept (capacity first : Nat) (w : Watch) : Prop where
  follows : w.broadcast.Follows first w.reader.place
  size : capacity ≤ w.broadcast.feed.size
  trades : w.trades = w.broadcast.given.filterMap Event.trade?
  lagged : w.reader.lagged = w.broadcast.past.count none

@[simp]
theorem ask_broadcast (w : Watch) : w.ask.broadcast = w.broadcast := rfl

@[simp]
theorem ask_reader (w : Watch) : w.ask.reader = w.reader := rfl

@[simp]
theorem ask_trades (w : Watch) : w.ask.trades = w.trades := rfl

theorem Kept.accounted (h : w.Kept capacity first) : w.Accounted capacity first where
  place := h.follows.place
  record := h.follows.honest h.size
  trades := h.trades
  lagged := h.lagged

theorem kept_start {f : Feed Event} (used : f.Used capacity) :
    (start f).Kept capacity f.position where
  follows := Broadcast.follows_start used
  size := used.keeps.1
  trades := rfl
  lagged := rfl

theorem Kept.after (h : w.Kept capacity first) (b : Bustle Event) :
    (w.after b).Kept capacity first ∧ (w.after b).broadcast.past = w.broadcast.past := by
  obtain ⟨follows, past, size⟩ := h.follows.after b
  refine ⟨⟨follows, ?_, ?_, ?_⟩, past⟩
  · exact size ▸ h.size
  · simp only [Watch.after, Broadcast.given, past]
    exact h.trades
  · simp only [Watch.after, past]
    exact h.lagged

/-- What one look does: a trade that is found joins those returned, and the reader goes on. -/
theorem look_spec (w : Watch) : w.look.2.broadcast = w.broadcast.look w.reader.place ∧
    w.look.1 = (w.reader.seek w.broadcast.feed 1).1 ∧
    w.look.2.reader = (w.reader.seek w.broadcast.feed 1).2 ∧
    w.look.2.trades = w.trades ++ w.look.1.items := by
  unfold Watch.look
  split <;> simp_all [Found.items]

theorem Kept.look_closed (h : w.Kept capacity first) :
    w.look.1 = .closed ↔ w.broadcast.feed.live = false ∧ w.broadcast.unread = [] := by
  obtain ⟨-, -, -, closed⟩ := TradeReader.seek_one_spec w.broadcast.feed w.reader
  rw [← h.follows.read_closed, ← closed, (look_spec w).2.1]

theorem Kept.look (h : w.Kept capacity first) : w.look.2.Kept capacity first := by
  obtain ⟨broadcast, found, reader, trades⟩ := look_spec w
  obtain ⟨place, lagged, items, -⟩ := TradeReader.seek_one_spec w.broadcast.feed w.reader
  rw [← reader] at place lagged
  rw [← found] at items
  constructor
  · rw [broadcast, place]
    exact h.follows.look
  · rw [broadcast]
    exact h.size
  · rw [broadcast, trades, items, h.trades]
    simp
  · rw [broadcast, lagged, h.lagged]
    simp [Broadcast.look]

/-- Whatever happens next is in order too, and nothing that the reader was told is taken back. -/
theorem Kept.act (h : w.Kept capacity first) (a : Act) :
    (w.act a).Kept capacity first ∧ w.broadcast.past <+: (w.act a).broadcast.past := by
  cases a with
  | around b =>
    obtain ⟨kept, past⟩ := h.after b
    exact ⟨kept, by simp [Watch.act, past]⟩
  | ask => exact ⟨⟨h.follows, h.size, h.trades, h.lagged⟩, List.prefix_rfl⟩
  | abandon => exact ⟨⟨h.follows, h.size, h.trades, h.lagged⟩, List.prefix_rfl⟩
  | look =>
    by_cases asking : w.asking = true
    · have looked : w.act .look = w.look.2 := if_pos asking
      rw [looked]
      constructor
      · exact h.look
      · rw [(look_spec w).1]
        exact List.prefix_append _ _
    · have idle : w.act .look = w := if_neg asking
      rw [idle]
      exact ⟨h, List.prefix_rfl⟩

theorem run_append (w : Watch) (acts more : List Act) :
    w.run (acts ++ more) = (w.run acts).run more :=
  List.foldl_append

theorem Kept.run (h : w.Kept capacity first) (acts : List Act) :
    (w.run acts).Kept capacity first ∧ w.broadcast.past <+: (w.run acts).broadcast.past := by
  induction acts generalizing w with
  | nil => exact ⟨h, List.prefix_rfl⟩
  | cons a acts ih =>
    obtain ⟨kept, told⟩ := h.act a
    obtain ⟨all, more⟩ := ih kept
    exact ⟨all, told.trans more⟩

theorem run_look_idle (idle : w.asking = false) (n : Nat) :
    w.run (List.replicate n .look) = w := by
  induction n with
  | zero => rfl
  | succ n ih =>
    have still : w.act .look = w := by simp [Watch.act, idle]
    simpa [List.replicate_succ, Watch.run, still] using ih

/-- A call that is left alone finds what it would find at once: its looks, one after the other, are
the steps of a search. -/
theorem run_looks (asking : w.asking = true) (n : Nat) :
    (w.run (List.replicate n .look)).reader = (w.reader.seek w.broadcast.feed n).2 ∧
    (w.run (List.replicate n .look)).trades =
      w.trades ++ (w.reader.seek w.broadcast.feed n).1.items := by
  induction n generalizing w with
  | zero => simp [Watch.run, TradeReader.seek, Found.items]
  | succ n ih =>
    have looked : w.run (List.replicate (n + 1) .look) =
        w.look.2.run (List.replicate n .look) := by
      simp [List.replicate_succ, Watch.run, Watch.act, asking]
    have never := TradeReader.seek_one_ne_lagged w.broadcast.feed w.reader
    rw [looked, TradeReader.seek_succ]
    cases one : w.reader.seek w.broadcast.feed 1 with
    | mk found reader =>
      cases found with
      | item t => simp [Watch.look, one, run_look_idle, Found.items]
      | closed => simp [Watch.look, one, run_look_idle, Found.items]
      | waiting =>
        have still : w.look.2.asking = true := by simp [Watch.look, one, asking]
        simpa [Watch.look, one, Broadcast.look] using ih still
      | lagged n => exact absurd (by rw [one]) (never n)

end Watch
end Bourse
