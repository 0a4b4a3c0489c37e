import Bourse.Http.Stream
import Bourse.Proofs.Feed.Trades

/-! What a client of the trade stream is sent: the trades that its reader finds, each once and in
order. A trade that was found is sent before the next one is looked for, and a search that is given
up has found none. -/
namespace Bourse.Http.Stream

variable {s : Stream} {first capacity : Nat}

/-- All that ends a socket: its client, a text that could not be sent, or the end of the feed. -/
inductive Ends (s : Stream) : Act → Prop where
  | farewell : s.hand = none → Ends s (.hear .farewell)
  | broken : s.hand = none → Ends s (.hear .broken)
  | ended : s.hand = none → Ends s (.hear .ended)
  | unsent {t : Trade} : s.hand = some t → Ends s .fail
  | closed : s.hand = none → s.watch.broadcast.feed.live = false →
      s.watch.broadcast.unread = [] → Ends s .look

/-- The reader is in order, and what he found has been sent, but for a trade in hand. -/
structure Kept (capacity first : Nat) (s : Stream) : Prop where
  watch : s.watch.Kept capacity first
  texts : s.sent ++ s.hand.toList.map (·.body.text) = s.watch.trades.map (·.body.text)

theorem kept_start {f : Feed Event} (used : f.Used capacity) :
    (start f).Kept capacity f.position :=
  ⟨Watch.kept_start used, rfl⟩

theorem Kept.look (h : s.Kept capacity first) (free : s.hand = none) :
    s.look.Kept capacity first := by
  have asked := (h.watch.act .ask).1.look
  have trades := (Watch.look_spec s.watch.ask).2.2.2
  have texts := h.texts
  simp only [free, Option.toList_none, List.map_nil, List.append_nil] at texts
  simp only [Watch.act] at asked
  cases looked : s.watch.ask.look with
  | mk found watch =>
    simp only [looked, Watch.ask_trades] at asked trades
    constructor
    · cases found <;> simpa [Stream.look, looked] using asked
    · cases found <;> simp [Stream.look, looked, trades, Found.items, free, texts]

/-- Whatever happens next, no text is sent but that of the trade in hand. -/
theorem Kept.act (h : s.Kept capacity first) (a : Act) : (s.act a).Kept capacity first := by
  cases a with
  | around b =>
    by_cases live : s.live = true
    · simp only [Stream.act, if_pos live]
      exact ⟨(h.watch.after b).1, h.texts⟩
    · simpa [Stream.act, live] using h
  | look =>
    by_cases waits : s.waits = true
    · have free : s.hand = none := by simp_all [Stream.waits]
      simpa [Stream.act, waits] using h.look free
    · simpa [Stream.act, waits] using h
  | hear said =>
    by_cases waits : s.waits = true
    · simp only [Stream.act, if_pos waits]
      exact ⟨(h.watch.act .abandon).1, h.texts⟩
    · simpa [Stream.act, waits] using h
  | deliver =>
    cases hand : s.hand with
    | none => simpa [Stream.act, hand] using h
    | some t =>
      by_cases live : s.live = true
      · simp only [Stream.act, hand, if_pos live]
        exact ⟨h.watch, by simpa [hand] using h.texts⟩
      · simpa [Stream.act, hand, live] using h
  | fail =>
    cases hand : s.hand with
    | none => simpa [Stream.act, hand] using h
    | some t =>
      have failed : s.act .fail = { s with live := false } := by simp [Stream.act, hand]
      rw [failed]
      exact ⟨h.watch, h.texts⟩

theorem Kept.run (h : s.Kept capacity first) (acts : List Act) :
    (s.run acts).Kept capacity first := by
  induction acts generalizing s with
  | nil => exact h
  | cons a acts ih => exact ih (h.act a)

theorem Kept.look_ends (h : s.Kept capacity first) (live : s.live = true) :
    s.look.live = false ↔
      s.watch.broadcast.feed.live = false ∧ s.watch.broadcast.unread = [] := by
  have closed := (h.watch.act .ask).1.look_closed
  simp only [Watch.act, Watch.ask_broadcast] at closed
  rw [← closed, Stream.look]
  cases looked : s.watch.ask.look with
  | mk found watch => cases found <;> simp [live]

/-- A socket ends for one of the reasons there are, and for every one of them. -/
theorem Kept.ends (h : s.Kept capacity first) (live : s.live = true) (a : Act) :
    (s.act a).live = false ↔ s.Ends a := by
  have closes := h.look_ends live
  constructor
  · intro ended
    cases a with
    | around b => simp [Stream.act, live] at ended
    | look =>
      cases hand : s.hand with
      | some t => simp [Stream.act, waits, hand, live] at ended
      | none =>
        simp only [Stream.act, waits, live, hand, Option.isNone_none, Bool.and_self,
          if_pos] at ended
        exact .closed hand (closes.mp ended).1 (closes.mp ended).2
    | hear said =>
      cases hand : s.hand with
      | some t => simp [Stream.act, waits, hand, live] at ended
      | none =>
        simp only [Stream.act, waits, live, hand, Option.isNone_none, Bool.and_self, if_pos,
          Stream.hear, Socket.hear] at ended
        cases said with
        | farewell => exact .farewell hand
        | broken => exact .broken hand
        | ended => exact .ended hand
        | text | bytes | ping | pong => simp [socket, live] at ended
    | deliver => cases hand : s.hand <;> simp [Stream.act, hand, live] at ended
    | fail =>
      cases hand : s.hand with
      | none => simp [Stream.act, hand, live] at ended
      | some t => exact .unsent hand
  · intro ends
    cases ends with
    | farewell free | broken free | ended free =>
      simp [Stream.act, waits, live, free, Stream.hear, Socket.hear]
    | unsent hand => simp [Stream.act, hand]
    | closed free dead read => simp [Stream.act, waits, live, free, closes, dead, read]

theorem run_append (s : Stream) (acts more : List Act) :
    s.run (acts ++ more) = (s.run acts).run more :=
  List.foldl_append

theorem run_look_idle (busy : s.waits = false) (n : Nat) :
    s.run (List.replicate n .look) = s := by
  induction n with
  | zero => rfl
  | succ n ih =>
    have still : s.act .look = s := by simp [Stream.act, busy]
    simpa [List.replicate_succ, Stream.run, still] using ih

/-- So many looks without a break are a search of so many steps, and what it finds is sent. -/
theorem run_looks (waits : s.waits = true) (n : Nat) :
    ((s.run (List.replicate n .look)).act .deliver).socket =
      match s.watch.reader.seek s.watch.broadcast.feed n with
      | (.item t, reader) => { s.socket with reader, sent := s.sent ++ [t.body.text] }
      | (.closed, reader) => { s.socket with reader, live := false }
      | (_, reader) => { s.socket with reader } := by
  have free : s.hand = none := by simp_all [Stream.waits]
  have live : s.live = true := by simp_all [Stream.waits]
  induction n generalizing s with
  | zero => simp [Stream.run, Stream.act, free, TradeReader.seek, socket]
  | succ n ih =>
    have looked : s.run (List.replicate (n + 1) .look) =
        s.look.run (List.replicate n .look) := by
      simp [List.replicate_succ, Stream.run, Stream.act, waits]
    have never := TradeReader.seek_one_ne_lagged s.watch.broadcast.feed s.watch.reader
    rw [looked, TradeReader.seek_succ]
    cases one : s.watch.reader.seek s.watch.broadcast.feed 1 with
    | mk found reader =>
      cases found with
      | item t =>
        have busy : s.look.waits = false := by simp [Stream.waits, Stream.look, Watch.look, one]
        rw [run_look_idle busy]
        simp [Stream.look, Watch.look, one, Stream.act, live, socket]
      | closed =>
        have finished : s.look.waits = false := by simp [Stream.waits, Stream.look, Watch.look, one]
        rw [run_look_idle finished]
        simp [Stream.look, Watch.look, one, Stream.act, free, socket]
      | waiting =>
        have still : s.look.waits = true := by
          simp [Stream.waits, Stream.look, Watch.look, one, live, free]
        rw [ih still (by simp [Stream.look, Watch.look, one, free])
          (by simp [Stream.look, Watch.look, one, live])]
        simp [Stream.look, Watch.look, one, socket, Broadcast.look]
      | lagged n => exact absurd (by rw [one]) (never n)

/-- Looking without a break, and sending what is found, is sending the next trade. -/
theorem run_send (waits : s.waits = true) :
    ((s.run (List.replicate (s.watch.broadcast.feed.ahead s.watch.reader.place) .look)).act
      .deliver).socket = s.socket.send s.watch.broadcast.feed := by
  have live : s.live = true := by simp_all [Stream.waits]
  rw [run_looks waits, Socket.send]
  simp only [socket, live, TradeReader.next]
  rfl

/-- What is in hand is sent, and then the hand is free. -/
theorem act_deliver (live : s.live = true) {t : Trade} (hand : s.hand = some t) :
    s.act .deliver = { s with hand := none, sent := s.sent ++ [t.body.text] } := by
  simp [Stream.act, hand, live]

/-- However publishing, asking, waiting in vain and giving up are interleaved, a reader of trades
loses nothing that it does not count, and what it was told stands. However this and what a client
says are interleaved, the client has been sent the texts of the trades found, but for one in hand;
a trade in hand is sent next unless the sending fails, and who looks without a break sends the next
trade of the feed; and the socket ends for a reason, and for every one. -/
theorem loses_only_what_is_counted {f : Feed Event} {capacity : Nat} (used : f.Used capacity) :
    (∀ acts, ((Watch.start f).run acts).Accounted capacity f.position) ∧
    (∀ acts more, ((Watch.start f).run acts).broadcast.past <+:
      ((Watch.start f).run (acts ++ more)).broadcast.past) ∧
    ∀ acts, let s := (start f).run acts
      s.watch.Accounted capacity f.position ∧
      s.sent ++ s.hand.toList.map (·.body.text) = s.watch.trades.map (·.body.text) ∧
      (s.live = true → ∀ t, s.hand = some t →
        s.act .deliver = { s with hand := none, sent := s.sent ++ [t.body.text] }) ∧
      (s.waits = true →
        ((s.run (List.replicate (s.watch.broadcast.feed.ahead s.watch.reader.place) .look)).act
          .deliver).socket = s.socket.send s.watch.broadcast.feed) ∧
      ∀ a, s.live = true → ((s.act a).live = false ↔ s.Ends a) := by
  have watched := fun acts => (Watch.kept_start used).run acts
  refine ⟨fun acts => (watched acts).1.accounted, fun acts more => ?_, fun acts => ?_⟩
  · rw [Watch.run_append]
    exact ((watched acts).1.run more).2
  · have kept := (kept_start used).run acts
    exact ⟨kept.watch.accounted, kept.texts, fun live t hand => act_deliver live hand, run_send,
      fun a live => kept.ends live a⟩

/-- A feed keeps one item. Its reader comes to look when the first of two trades is lost. A socket
that comes as late hears something between two looks, finds and sends the other trade, and ends when
its client leaves. -/
theorem loses_only_what_is_counted_of_late_reader :
    let f : Feed Event := ⟨1, 1, [], 0, 0, true⟩
    let lost : Trade := default
    let found : Trade := { lost with sequence := 1 }
    let published := [Bustle.publish (Event.traded lost .epoch), .publish (.traded found .epoch)]
    let w := (Watch.start f).run (published.map .around ++ [.ask, .look, .look])
    let s := (start f).run (published.map .around ++ [.look, .hear (.text "hello"), .look])
    let sent := s.act .deliver
    f.Used 1 ∧ w.Accounted 1 0 ∧ w.reader.lagged = 1 ∧ w.trades = [found] ∧
      s.watch.Accounted 1 0 ∧ s.watch.reader.lagged = 1 ∧ s.sent = [] ∧ s.hand = some found ∧
      sent.sent = [found.body.text] ∧ sent.live = true ∧
      (sent.act (.hear .farewell)).live = false := by
  intro f lost found published w s sent
  have used : f.Used 1 := .new rfl
  obtain ⟨watched, -, streamed⟩ := loses_only_what_is_counted used
  have accounted : w.Accounted 1 f.position := watched _
  have told : w.broadcast.past = [none, some (.traded found .epoch)] := by
    simp [w, published, f, Watch.run, Watch.act, Watch.start, Watch.after, Watch.ask, Watch.look,
      Broadcast.start, Broadcast.after, Broadcast.look, Feed.after, Feed.publish, Feed.subscribe,
      Feed.subscribeTrades, Feed.passed, Feed.read, Feed.oldest, TradeReader.seek_one,
      Event.trade?]
  let late : List (Option Event) → TradeReader → Bool → List Trade → Watch := fun past =>
    .mk ⟨⟨1, 1, [.traded found .epoch], 2, 1, true⟩,
      [.traded lost .epoch, .traded found .epoch], past⟩
  have came : (start f).run (published.map .around) =
      ⟨late [] ⟨0, 0⟩ false [], none, [], true⟩ := by
    rfl
  have passed : (Stream.mk (late [] ⟨0, 0⟩ false []) none [] true).act .look =
      ⟨late [none] ⟨1, 1⟩ true [], none, [], true⟩ := by
    rfl
  have heard : (Stream.mk (late [none] ⟨1, 1⟩ true []) none [] true).act (.hear (.text "hello")) =
      ⟨late [none] ⟨1, 1⟩ false [], none, [], true⟩ := by
    rfl
  have finds : (Stream.mk (late [none] ⟨1, 1⟩ false []) none [] true).act .look =
      ⟨late [none, some (.traded found .epoch)] ⟨2, 1⟩ false [found], some found, [], true⟩ := by
    rfl
  have busy : s =
      ⟨late [none, some (.traded found .epoch)] ⟨2, 1⟩ false [found], some found, [], true⟩ := by
    simp only [s, run_append, came]
    simp only [Stream.run, List.foldl_cons, List.foldl_nil, passed, heard, finds]
  obtain ⟨counted, -, delivers, -, -⟩ := streamed
    (published.map .around ++ [.look, .hear (.text "hello"), .look])
  obtain ⟨-, -, -, -, ends⟩ := streamed
    (published.map .around ++ [.look, .hear (.text "hello"), .look] ++ [.deliver])
  rw [show (start f).run _ = s from rfl, busy] at counted delivers
  rw [run_append, show (start f).run _ = s from rfl, busy] at ends
  have delivered := delivers rfl found rfl
  simp only [Stream.run, List.foldl_cons, List.foldl_nil, delivered] at ends
  have ended := (ends (.hear .farewell) trivial).mpr (.farewell rfl)
  simp only [sent, busy, delivered]
  refine ⟨used, accounted, ?_, ?_, counted, rfl, ?_⟩
  · rw [accounted.lagged, told]
    rfl
  · rw [accounted.trades, Broadcast.given, told]
    rfl
  · exact ⟨trivial, trivial, rfl, trivial, ended⟩

end Bourse.Http.Stream
