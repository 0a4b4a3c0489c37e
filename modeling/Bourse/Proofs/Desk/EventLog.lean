import Bourse.Proofs.Desk.Conservation
import Bourse.Proofs.Desk.Events

/-! The feed is a log of the book and of the ledger. Who follows it from the start knows what rests,
what has traded, and what is recorded of every order. -/
namespace Bourse

/-- The order of this id as the events last told it. -/
def latest (es : List Event) (id : OrderId) : Option Order :=
  ((es.filterMap Event.order?).filter (·.id == id)).getLast?

/-- What rests, by all the events so far. -/
def replayed (es : List Event) : OrderId → Option Order := es.foldl Event.replay fun _ => none

theorem latest_eq_some {es : List Event} {os : List Order}
    (states : ∀ y, y ∈ es.filterMap Event.order? ↔ y ∈ os) (distinct : (os.map (·.id)).Nodup)
    (id : OrderId) (y : Order) : latest es id = some y ↔ y ∈ os ∧ y.id = id := by
  have told : ∀ z, z ∈ (es.filterMap Event.order?).filter (·.id == id) ↔ z ∈ os ∧ z.id = id := by
    intro z
    rw [List.mem_filter, states, beq_iff_eq]
  constructor
  · intro last
    exact (told y).mp (List.mem_of_getLast? last)
  · intro there
    cases last : latest es id with
    | none =>
      have empty := List.getLast?_eq_none_iff.mp last
      have mem := (told y).mpr there
      rw [empty] at mem
      cases mem
    | some z =>
      obtain ⟨hz, same⟩ := (told z).mp (List.mem_of_getLast? last)
      rw [List.inj_on_of_nodup_map distinct hz there.1 (same.trans there.2.symm)]

/-- What is told later counts, and what was told before of the orders that are not told of later. -/
theorem latest_append {es more : List Event} {os : List Order}
    (states : ∀ y, y ∈ more.filterMap Event.order? ↔ y ∈ os) (distinct : (os.map (·.id)).Nodup)
    (id : OrderId) (y : Order) : latest (es ++ more) id = some y ↔
      (y ∈ os ∧ y.id = id) ∨ (latest es id = some y ∧ id ∉ os.map (·.id)) := by
  have told := latest_eq_some states distinct id
  have either : latest (es ++ more) id = (latest more id).or (latest es id) := by
    rw [latest, List.filterMap_append, List.filter_append, List.getLast?_append]
    rfl
  rw [either]
  by_cases posted : id ∈ os.map (·.id)
  · obtain ⟨z, hz, same⟩ := List.mem_map.mp posted
    rw [(told z).mpr ⟨hz, same⟩, Option.some_or, ← (told z).mpr ⟨hz, same⟩, told]
    exact (or_iff_left fun before => before.2 posted).symm
  · have none : latest more id = none := Option.eq_none_iff_forall_ne_some.mpr fun z hz =>
      posted (List.mem_map.mpr ⟨z, (told z).mp hz⟩)
    rw [none, Option.none_or]
    refine ⟨fun before => .inr ⟨before, posted⟩, ?_⟩
    rintro (⟨hy, same⟩ | ⟨before, -⟩)
    · exact absurd (List.mem_map.mpr ⟨y, hy, same⟩) posted
    · exact before

theorem Holds.unique {f g : OrderId → Option Order} {there : Order → Prop} (hf : Holds f there)
    (hg : Holds g there) : f = g := by
  funext id
  apply Option.ext
  intro y
  rw [hf, hg]

theorem Ledger.Sound.holds {l : Ledger} (h : l.Sound) : Holds l.get? (· ∈ l.orders) := by
  intro id y
  constructor
  · intro found
    exact ⟨List.mem_of_find?_eq_some found, beq_iff_eq.mp (List.find?_some found :)⟩
  · rintro ⟨there, rfl⟩
    exact find_key_of_mem h there

section Posted

variable {l l' : Ledger} {taken os : List Order} {ts : List Trade} {o : Order}

/-- A map of some of the records that is changed as they are is one of these records again. -/
theorem Holds.posted {held held' : OrderId → Option Order} {kept : Order → Prop}
    (h : Holds held fun y => y ∈ l.orders ∧ kept y) (p : l.Posted taken os ts l')
    (after : ∀ id y, held' id = some y ↔
      (y ∈ os ∧ kept y ∧ y.id = id) ∨ (held id = some y ∧ id ∉ os.map (·.id))) :
    Holds held' fun y => y ∈ l'.orders ∧ kept y := by
  intro id y
  rw [after, h]
  change _ ↔ (y ∈ l'.orders ∧ kept y) ∧ y.id = id
  rw [p.mem]
  constructor
  · rintro (⟨posted, keep, same⟩ | ⟨⟨⟨there, keep⟩, rfl⟩, apart⟩)
    · exact ⟨⟨.inl posted, keep⟩, same⟩
    · exact ⟨⟨.inr ⟨there, apart⟩, keep⟩, rfl⟩
  · rintro ⟨⟨posted | ⟨there, apart⟩, keep⟩, rfl⟩
    · exact .inl ⟨posted, keep, rfl⟩
    · exact .inr ⟨⟨⟨there, keep⟩, rfl⟩, apart⟩

/-- Of the order `o` that was taken in so much has been matched. -/
def Ledger.Filled (l : Ledger) (o : Order) (matched : Nat) : Prop :=
  ∃ r ∈ l.orders, r.id = o.id ∧ r.size = o.quantity ∧ matched + r.quantity = o.quantity

namespace Ledger

theorem Posted.filled_taken (p : l.Posted taken os ts l') (ho : o ∈ taken) :
    l'.Filled o (sumOf Trade.quantity (ts.filter (·.involves o.id))) := by
  obtain ⟨y, hy, traded⟩ := p.opened o ho
  exact ⟨y, (p.mem y).mpr (.inl hy), traded.id, traded.size, traded.quantity⟩

theorem Filled.posted {n : Nat} (h : l.Filled o n) (sound : l.Sound)
    (p : l.Posted taken os ts l') (other : o.id ∉ taken.map (·.id)) :
    l'.Filled o (n + sumOf Trade.quantity (ts.filter (·.involves o.id))) := by
  obtain ⟨r, hr, id, size, quantity⟩ := h
  by_cases posted : r.id ∈ os.map (·.id)
  · obtain ⟨y, hy, same⟩ := List.mem_map.mp posted
    have here : y ∈ l'.orders := (p.mem y).mpr (.inl hy)
    rcases p.written y hy with ⟨x, hx, traded⟩ | ⟨z, hz, -, traded⟩
    · have taken : x.id = o.id := traded.id.symm.trans (same.trans id)
      exact absurd (taken ▸ List.mem_map_of_mem hx) other
    · have one : z = r := List.inj_on_of_nodup_map sound hz hr (traded.id.symm.trans same)
      subst one
      have lost := traded.quantity
      rw [id] at lost
      exact ⟨y, here, same.trans id, traded.size.trans size, by omega⟩
  · refine ⟨r, (p.mem r).mpr (.inr ⟨hr, posted⟩), id, size, ?_⟩
    rw [← id, p.uninvolved posted]
    exact quantity

end Ledger
end Posted

/-- The events are a log of the desk: they tell what rests, field for field, all trades in the order
they were stored, and of every order the record. -/
structure Desk.Logged (d : Desk) (es : List Event) : Prop where
  resting : Holds (replayed es) (· ∈ d.engine.book.orders)
  trades : es.filterMap Event.trade? = d.store.ledger.trades
  records : latest es = d.store.ledger.get?

variable {d d' : Desk} {m : Moment} {c : Command} {r : Except Rejection Reply} {es : List Event}
  {clock : Nat → Moment} {cs : List Command} {rs : List (Except Rejection Reply)} {o : Order}

theorem Desk.Logged.handled (h : d.Logged es) (records : Records d.store d.engine)
    (f : Handled d.engine d.store m c r d'.engine d'.store) :
    d'.Logged (es ++ announced m.now r) := by
  have told := f.announces records
  have posted := f.posted records
  have after := f.records records
  exact
    { resting := by
        have before : Holds (replayed es) fun y =>
            y ∈ d.store.ledger.orders ∧ y.status.isTerminal = false :=
          fun id y => (h.resting id y).trans (and_congr_left' (records.resting y).symm)
        have held := before.posted posted (told.replayed _ h.resting)
        intro id y
        rw [replayed, List.foldl_append]
        exact (held id y).trans (and_congr_left' (after.resting y))
      trades := by rw [List.filterMap_append, h.trades, told.trades, posted.trades]
      records := by
        have before : Holds (latest es) fun y => y ∈ d.store.ledger.orders ∧ True := by
          intro id y
          rw [h.records]
          exact (records.ledger.holds id y).trans (and_congr_left' (and_iff_left trivial).symm)
        have held : Holds (latest (es ++ announced m.now r)) fun y =>
            y ∈ d'.store.ledger.orders ∧ True :=
          before.posted posted fun id y => by
            rw [latest_append told.states told.distinct, true_and]
        have again : Holds (latest (es ++ announced m.now r)) (· ∈ d'.store.ledger.orders) :=
          fun id y => (held id y).trans (and_congr_left' (and_iff_left trivial))
        exact again.unique after.ledger.holds }

namespace Worked

theorem logged (w : Worked d clock (cs.map .command) rs d') (records : Records d.store d.engine)
    (h : d.Logged es) : d'.Logged (es ++ stream clock rs) := by
  induction cs generalizing d clock rs es with
  | nil =>
    cases w
    rw [stream, List.append_nil]
    exact h
  | cons c cs ih =>
    cases w with
    | command done more =>
      rw [stream, ← List.append_assoc]
      exact ih more (done.records records) (h.handled records done)

/-- While the id of an order is not taken in again, the events tell how much of it has traded. -/
theorem filled (w : Worked d clock (cs.map .command) rs d') (records : Records d.store d.engine)
    {n : Nat} (h : d.store.ledger.Filled o n)
    (once : o.id ∉ (accepted (cs.map .command) rs).map (·.id)) :
    d'.store.ledger.Filled o (n + sumOf (Event.matchedOf o.id) (stream clock rs)) := by
  induction cs generalizing d clock rs n with
  | nil =>
    cases w
    exact h
  | cons c cs ih =>
    cases w with
    | command done more =>
      rw [List.map_cons, accepted, List.map_append, List.mem_append, not_or] at once
      have first := h.posted records.ledger (done.posted records) once.1
      rw [← (done.announces records).matched] at first
      rw [stream, sumOf_append, ← Nat.add_assoc]
      exact ih more (done.records records) first once.2

theorem split {past more : List Command} (w : Worked d clock ((past ++ more).map .command) rs d') :
    ∃ d₁, Worked d clock (past.map .command) (rs.take past.length) d₁ ∧
      Worked d₁ (fun n => clock (past.length + n)) (more.map .command) (rs.drop past.length)
        d' := by
  induction past generalizing d clock rs with
  | nil =>
    refine ⟨d, .nil, ?_⟩
    simpa using w
  | cons c past ih =>
    cases w with
    | command done rest =>
      obtain ⟨d₁, first, second⟩ := ih rest
      refine ⟨d₁, .command done first, ?_⟩
      simpa [Nat.add_right_comm] using second

end Worked

namespace Desk

theorem work_feed (h : d.work clock (cs.map .command) = .ok (d', rs)) :
    d'.feed = (d.feed.publishAll (stream clock rs)).1 := by
  induction cs generalizing d clock rs with
  | nil =>
    cases h
    rfl
  | cons c cs ih =>
    obtain ⟨d₁, r, rs', first, more, rfl⟩ := work_command h
    rw [ih more, (handle_feed first).1, ← Feed.publishAll_append, stream]

theorem start_empty_eq (feed : Feed Event) : start (.ofLedger .empty) feed =
    .ok ⟨.new, { Store.ofLedger .empty with calls := 2 }, feed, true⟩ := by
  simp only [start, Store.ofLedger, Store.lastTrade, Store.openOrders, Store.call, Outage.none,
    Ledger.empty, Ledger.openOrders, Engine.restore, List.filter_nil, List.mergeSort_nil]
  rfl

theorem logged_nothing (feed : Feed Event) :
    Logged ⟨.new, { Store.ofLedger .empty with calls := 2 }, feed, true⟩ [] where
  resting _ _ := ⟨nofun, fun there => nomatch there.1⟩
  trades := rfl
  records := rfl

/-- Let a subscriber follow the feed of a desk over a ledger that is empty at first. After all
commands he has been shown, item by item, the events of all of them; they are a log of the desk; and
what they tell of an order to be matched since it was taken in is what its record says is filled. -/
theorem events_log_book_and_ledger {feed : Feed Event} (sound : feed.Sound)
    (clock : Nat → Moment) (cs : List Command) :
    ∃ first d rs, start (.ofLedger .empty) feed.subscribe.1 = .ok first ∧
      first.work clock (cs.map .command) = .ok (d, rs) ∧
      d.feed.Shows feed.subscribe.2 (stream clock rs) ∧ d.Logged (stream clock rs) ∧
      ∀ past o later x, cs = past ++ .submit o :: later →
        rs[past.length]? = some (.ok (.execution x)) →
        o.id ∉ (accepted (later.map .command) (rs.drop (past.length + 1))).map (·.id) →
        ∃ r, d.store.ledger.get? o.id = some r ∧ r.size = o.quantity ∧ r.filled =
          sumOf (Event.matchedOf o.id)
            (stream (fun n => clock (past.length + n)) (rs.drop past.length)) := by
  obtain ⟨first, started, records, -⟩ := start_empty feed.subscribe.1
  have empty := start_empty_eq feed.subscribe.1
  rw [started] at empty
  cases empty
  obtain ⟨d, rs, hok, worked⟩ := work_spec records clock (cs.map .command)
  refine ⟨_, d, rs, started, hok, ?_, worked.logged records (logged_nothing _), ?_⟩
  · rw [work_feed hok]
    exact Feed.shows_publishAll (f := feed.subscribe.1) sound (Nat.succ_pos _) _
  · rintro past o later x rfl replied once
    obtain ⟨d₁, before, after⟩ := worked.split
    have records₁ := before.records records
    obtain ⟨within, here⟩ := List.getElem?_eq_some_iff.mp replied
    rw [List.drop_eq_getElem_cons within, here] at after ⊢
    cases after with
    | command done more =>
      have posted := done.posted records₁
      have first := posted.filled_taken (List.mem_singleton_self o)
      rw [← (done.announces records₁).matched] at first
      obtain ⟨r, hr, id, size, quantity⟩ := more.filled (done.records records₁) first once
      have found := ((worked.records records).ledger.holds o.id r).mpr ⟨hr, id⟩
      refine ⟨r, found, size, ?_⟩
      rw [stream, sumOf_append, Order.filled, size, ← quantity, Nat.add_sub_cancel]

/-- A bid that takes the whole of an ask and is cancelled with the rest. -/
theorem events_log_cancelled_bid :
    let ask : Order := .new ⟨"ask"⟩ .sell .one 2 .epoch
    let bid : Order := .new ⟨"bid"⟩ .buy .one 5 .epoch
    let cs : List Command := [.submit ask, .submit bid, .cancel bid.id]
    let clock : Nat → Moment := fun _ => ⟨.epoch, .ofNat⟩
    ∃ first d rs, start (.ofLedger .empty) Feed.standard.subscribe.1 = .ok first ∧
      first.work clock (cs.map .command) = .ok (d, rs) ∧
      d.feed.Shows 0 (stream clock rs) ∧ d.Logged (stream clock rs) ∧
      ∃ r, d.store.ledger.get? bid.id = some r ∧ r.size = 5 ∧
        r.filled = sumOf (Event.matchedOf bid.id) (stream clock (rs.drop 1)) := by
  intro ask bid cs clock
  have sound : (Feed.standard : Feed Event).Sound := Nat.le_refl 0
  obtain ⟨first, d, rs, started, hok, shows, logged, since⟩ :=
    events_log_book_and_ledger sound clock cs
  refine ⟨first, d, rs, started, hok, shows, logged, ?_⟩
  rw [start_empty_eq] at started
  cases started
  cases hok
  exact since [.submit ask] bid [.cancel bid.id] _ rfl rfl (by decide)

end Desk
end Bourse
