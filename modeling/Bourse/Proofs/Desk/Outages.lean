import Bourse.Proofs.Desk.Closing
import Bourse.Proofs.Desk.EventLog

/-! Nobody outside notices that records fail. Two desks whose stores are read alike at the start and
then fail in different ways reply alike, keep the same book and publish the same events. -/
namespace Bourse

def Event.seen (v : View) : Event → Event
  | .added o t => .added (o.seen v) (v.time t)
  | .matched o n t => .matched (o.seen v) n (v.time t)
  | .cancelled o t => .cancelled (o.seen v) (v.time t)
  | .traded t at_ => .traded (t.seen v) (v.time at_)

section Seen

variable (v : View)

theorem Execution.events_seen (x : Execution) (now : Instant) :
    (x.seen v).events (v.time now) = (x.events now).map (·.seen v) := by
  simp only [Execution.events, List.map_append, List.map_flatMap, apply_ite (List.map _)]
  congr 2
  rw [Execution.seen, List.flatMap_map]
  rfl

theorem announced_seen (now : Instant) (r : Except Rejection Reply) :
    announced (v.time now) (r.map (·.seen v)) = (announced now r).map (·.seen v) := by
  cases r with
  | error _ => rfl
  | ok reply =>
    cases reply with
    | execution x => exact x.events_seen v now
    | cancelled gone => cases gone <;> rfl
    | order _ => rfl
    | depth _ => rfl

theorem stream_seen (clock : Nat → Moment) (rs : List (Except Rejection Reply)) :
    stream (fun n => (clock n).seen v) (rs.map (·.map (·.seen v))) =
      (stream clock rs).map (·.seen v) := by
  induction rs generalizing clock with
  | nil => rfl
  | cons r rs ih =>
    rw [List.map_cons, stream, stream, List.map_append]
    congr 1
    · exact announced_seen v (clock 0).now r
    · exact ih fun n => clock (n + 1)

end Seen

namespace Desk

variable {d d₀ d' : Desk} {clock : Nat → Moment}

/-- What a command does to the engine and what is replied is for the engine alone to say. -/
theorem handle_same {c : Command} {m : Moment} {r : Except Rejection Reply}
    (same : d.engine = d₀.engine) (h : d.handle c m = .ok (d', r)) :
    ∃ d₀', d₀.handle c m = .ok (d₀', r) ∧ d'.engine = d₀'.engine := by
  obtain ⟨e, s, feed, serving⟩ := d
  cases same
  cases c with
  | submit o =>
    simp only [handle, submit] at h ⊢
    cases hs : d₀.engine.submit o m with
    | error => rw [hs] at h; cases h
    | ok p => obtain ⟨e, _ | x⟩ := p <;> rw [hs] at h <;> cases h <;> exact ⟨_, rfl, rfl⟩
  | cancel id =>
    simp only [handle, cancel] at h ⊢
    cases hs : d₀.engine.cancel id m.now with
    | error => rw [hs] at h; cases h
    | ok p => obtain ⟨e, _ | o⟩ := p <;> rw [hs] at h <;> cases h <;> exact ⟨_, rfl, rfl⟩
  | best side =>
    simp only [handle, best] at h ⊢
    cases hs : d₀.engine.book.best side with
    | error => rw [hs] at h; cases h
    | ok o => rw [hs] at h; cases h; exact ⟨_, rfl, rfl⟩
  | find id => cases h; exact ⟨_, rfl, rfl⟩
  | depth limit => cases h; exact ⟨_, rfl, rfl⟩

theorem work_same {cs : List Command} {rs : List (Except Rejection Reply)}
    (same : d.engine = d₀.engine) (h : d.work clock (cs.map .command) = .ok (d', rs)) :
    ∃ d₀', d₀.work clock (cs.map .command) = .ok (d₀', rs) ∧ d'.engine = d₀'.engine := by
  induction cs generalizing d d₀ clock rs with
  | nil =>
    cases h
    exact ⟨d₀, rfl, same⟩
  | cons c cs ih =>
    obtain ⟨d₁, r, rs', first, more, rfl⟩ := work_command h
    obtain ⟨d₂, first₀, same₁⟩ := handle_same same first
    obtain ⟨d₀', more₀, same'⟩ := ih same₁ more
    exact ⟨d₀', by simp [work, first₀, more₀], same'⟩

theorem start_same {s s₀ : Store} (last : s.lastTrade.2 = s₀.lastTrade.2)
    (opened : s.lastTrade.1.openOrders.2 = s₀.lastTrade.1.openOrders.2) (feed : Feed Event) :
    (start s feed).map (fun d => (d.engine, d.feed)) =
      (start s₀ feed).map fun d => (d.engine, d.feed) := by
  have opening (e : Engine) (os : List Order) (store store₀ : Store) :
      ((e.restore os).bind fun p =>
        .ok (⟨p.1, store.record ((moved os p.2).map .updated), feed, true⟩ : Desk)).map
          (fun d => (d.engine, d.feed)) =
      ((e.restore os).bind fun p =>
        .ok (⟨p.1, store₀.record ((moved os p.2).map .updated), feed, true⟩ : Desk)).map
          fun d => (d.engine, d.feed) := by
    cases e.restore os <;> rfl
  simp only [start, last, opened]
  cases s₀.lastTrade.1.openOrders.2 with
  | error => rfl
  | ok os => cases s₀.lastTrade.2 <;> exact opening _ os _ _

theorem start_feed {s : Store} {feed : Feed Event} (h : start s feed = .ok d) : d.feed = feed := by
  have opening (e : Engine) (os : List Order) (store : Store) {d : Desk}
      (h : ((e.restore os).bind fun p =>
        .ok ⟨p.1, store.record ((moved os p.2).map .updated), feed, true⟩) = .ok d) :
      d.feed = feed := by
    cases hr : e.restore os with
    | error => rw [hr] at h; cases h
    | ok p => rw [hr] at h; cases h; rfl
  simp only [start] at h
  cases hs : s.lastTrade.1.openOrders.2 with
  | error => rw [hs] at h; cases h; rfl
  | ok os => rw [hs] at h; exact opening _ os _ h

/-- Two runs of the same commands from which nobody can tell the desks apart, but by clock readings
and trade ids: the replies, what rests in both ladders, the numbers to come, and the events that
each has published on its feed. -/
structure Unnoticed (feed : Feed Event) (clock clock₀ : Nat → Moment) (d d₀ : Desk)
    (rs rs₀ : List (Except Rejection Reply)) : Prop where
  replies : rs.map (·.map (·.seen (.timeless id))) = rs₀.map (·.map (·.seen (.timeless id)))
  ladders : ∀ side, (d.engine.book.ladder side).seen (.timeless id) =
    (d₀.engine.book.ladder side).seen (.timeless id)
  nextTrade : d.engine.nextTrade = d₀.engine.nextTrade
  nextSequence : d.engine.nextSequence = d₀.engine.nextSequence
  published : d.feed = (feed.publishAll (stream clock rs)).1
  published₀ : d₀.feed = (feed.publishAll (stream clock₀ rs₀)).1
  events : (stream clock rs).map (·.seen (.timeless id)) =
    (stream clock₀ rs₀).map (·.seen (.timeless id))

/-- Let the stores of two desks be read alike at the start, and let any records fail in each, those
at the start included. After any commands nobody can tell, and by the same clock nothing at all
differs but the stores. -/
theorem outages_unnoticed {s s₀ : Store} (last : s.lastTrade.2 = s₀.lastTrade.2)
    (opened : s.lastTrade.1.openOrders.2 = s₀.lastTrade.1.openOrders.2) (feed : Feed Event) :
    ∃ first first₀, start s feed = .ok first ∧ start s₀ feed = .ok first₀ ∧
      first.engine = first₀.engine ∧ ∀ (clock clock₀ : Nat → Moment) (cs : List Command),
        ∃ d rs d₀ rs₀ same, first.work clock (cs.map .command) = .ok (d, rs) ∧
          first₀.work clock₀ (cs.map .command) = .ok (d₀, rs₀) ∧
          Unnoticed feed clock clock₀ d d₀ rs rs₀ ∧
          first₀.work clock (cs.map .command) = .ok (same, rs) ∧
          same.engine = d.engine ∧ same.feed = d.feed := by
  obtain ⟨first, started, sound, -⟩ := start_sound s feed
  obtain ⟨first₀, started₀, -, -⟩ := start_sound s₀ feed
  have alike := start_same last opened feed
  rw [started, started₀] at alike
  obtain ⟨engine, fed⟩ := Prod.mk.inj (Except.ok.inj alike)
  refine ⟨first, first₀, started, started₀, engine, fun clock clock₀ cs => ?_⟩
  have twin : Engine.Twin (.timeless id) first.engine first₀.engine := engine ▸ .refl sound rfl
  have times : ∀ n, (clock n).seen (.timeless id) = (clock₀ n).seen (.timeless id) := fun _ => rfl
  obtain ⟨d, rs, d₀, rs₀, hok, hok₀, replies, last⟩ := work_of_twin twin times cs
  obtain ⟨same, hsame, engine'⟩ := work_same engine hok
  have published : d.feed = (feed.publishAll (stream clock rs)).1 := by
    rw [work_feed hok, start_feed started]
  refine ⟨d, rs, d₀, rs₀, same, hok, hok₀, ?_, hsame, engine'.symm, ?_⟩
  · exact
      { replies := replies
        ladders := last.ladders
        nextTrade := last.nextTrade
        nextSequence := last.next 0
        published := published
        published₀ := by rw [work_feed hok₀, start_feed started₀]
        events := by
          rw [← stream_seen, ← stream_seen, replies]
          rfl }
  · rw [work_feed hsame, start_feed started₀, published]

/-- All records of the one desk are lost, and none of the other. -/
theorem outages_unnoticed_when_all_is_lost :
    let ask : Order := .new ⟨"ask"⟩ .sell .one 2 .epoch
    let bid : Order := .new ⟨"bid"⟩ .buy .one 5 .epoch
    let cs : List Command := [.submit ask, .submit bid, .cancel bid.id]
    let full : Outage := .ofNames ["save_order", "update_order", "save_trades"] "disk full"
    let clock : Nat → Moment := fun _ => ⟨.epoch, .ofNat⟩
    let clock₀ : Nat → Moment := fun n => ⟨⟨n, 0⟩, fun k => .ofNat (k + 1)⟩
    ∃ first first₀ d rs d₀ rs₀, start ⟨.empty, full, 0⟩ .standard = .ok first ∧
      start (.ofLedger .empty) .standard = .ok first₀ ∧
      first.work clock (cs.map .command) = .ok (d, rs) ∧
      first₀.work clock₀ (cs.map .command) = .ok (d₀, rs₀) ∧
      Unnoticed .standard clock clock₀ d d₀ rs rs₀ ∧
      d.store.ledger = .empty ∧ d₀.store.ledger.orders.map (·.status) = [.filled, .cancelled] ∧
      d₀.store.ledger.trades.length = 1 := by
  intro ask bid cs full clock clock₀
  obtain ⟨first, first₀, started, started₀, -, all⟩ :=
    @outages_unnoticed ⟨.empty, full, 0⟩ (.ofLedger .empty) rfl rfl .standard
  obtain ⟨d, rs, d₀, rs₀, -, hok, hok₀, unnoticed, -⟩ := all clock clock₀ cs
  refine ⟨first, first₀, d, rs, d₀, rs₀, started, started₀, hok, hok₀, unnoticed, ?_⟩
  have looked (n : Nat) : full .lastTrade n = none := rfl
  have listed (n : Nat) : full .openOrders n = none := rfl
  have empty : start ⟨.empty, full, 0⟩ .standard =
      .ok ⟨.new, ⟨.empty, full, 2⟩, .standard, true⟩ := by
    simp only [start, Store.lastTrade, Store.openOrders, Store.call, looked, listed, Ledger.empty,
      Ledger.openOrders, Engine.restore, List.filter_nil, List.mergeSort_nil]
    rfl
  rw [empty] at started
  cases started
  rw [start_empty_eq] at started₀
  cases started₀
  cases hok
  cases hok₀
  exact ⟨by decide, by decide, by decide⟩

end Desk
end Bourse
