import Bourse.Proofs.Desk.EventLog

/-! What becomes of a record. It tells of less and less of its order until the order has ended, and
of an ended order nothing changes any more. Only a new order under the same id takes its place, and
no such order is taken in before the old one has ended. -/
namespace Bourse

/-- What may become of an order in time. -/
structure Order.Onward (o o' : Order) : Prop where
  id : o'.id = o.id
  side : o'.side = o.side
  size : o'.size = o.size
  quantity : o'.quantity ≤ o.quantity
  ended : o.status.isTerminal = true → o' = o

namespace Order

theorem Onward.refl (o : Order) : o.Onward o := ⟨rfl, rfl, rfl, Nat.le_refl _, fun _ => rfl⟩

theorem Onward.trans {a b c : Order} (h : a.Onward b) (h' : b.Onward c) : a.Onward c where
  id := h'.id.trans h.id
  side := h'.side.trans h.side
  size := h'.size.trans h.size
  quantity := Nat.le_trans h'.quantity h.quantity
  ended terminal := by
    have same := h.ended terminal
    exact (h'.ended (same ▸ terminal)).trans same

theorem Traded.onward {ts : List Trade} {o o' : Order} (t : o.Traded ts o')
    (live : o.status.isTerminal = false) : o.Onward o' where
  id := t.id
  side := t.side
  size := t.size
  quantity := by
    have lost := t.quantity
    omega
  ended terminal := by
    rw [live] at terminal
    cases terminal

end Order

/-- Whatever the first map has, the second has too, as it may have become in time. -/
def Onward (held held' : OrderId → Option Order) (id : OrderId) : Prop :=
  ∀ o, held id = some o → ∃ o', held' id = some o' ∧ o.Onward o'

theorem Onward.refl (held : OrderId → Option Order) (id : OrderId) : Onward held held id :=
  fun o there => ⟨o, there, .refl o⟩

theorem Onward.trans {a b c : OrderId → Option Order} {id : OrderId} (h : Onward a b id)
    (h' : Onward b c id) : Onward a c id := by
  intro o there
  obtain ⟨o', there', on⟩ := h o there
  obtain ⟨o'', there'', on'⟩ := h' o' there'
  exact ⟨o'', there'', on.trans on'⟩

namespace Ledger

variable {l l' : Ledger} {taken os : List Order} {ts : List Trade} {id : OrderId}

/-- A posting leaves every record as it is or brings it onward, but for those of the orders that are
taken in with it. -/
theorem Posted.onward (p : l.Posted taken os ts l') (sound : l.Sound) (sound' : l'.Sound)
    (untaken : id ∉ taken.map (·.id)) : Onward l.get? l'.get? id := by
  intro o found
  obtain ⟨there, rfl⟩ := (sound.holds _ _).mp found
  by_cases posted : o.id ∈ os.map (·.id)
  · obtain ⟨y, hy, same⟩ := List.mem_map.mp posted
    have now : l'.get? o.id = some y := (sound'.holds _ _).mpr ⟨(p.mem y).mpr (.inl hy), same⟩
    refine ⟨y, now, ?_⟩
    rcases p.written y hy with ⟨x, hx, traded⟩ | ⟨z, hz, live, traded⟩
    · have id : x.id = o.id := traded.id.symm.trans same
      exact absurd (id ▸ List.mem_map_of_mem hx) untaken
    · have one : z = o := List.inj_on_of_nodup_map sound hz there (traded.id.symm.trans same)
      exact one ▸ traded.onward live
  · exact ⟨o, (sound'.holds _ _).mpr ⟨(p.mem o).mpr (.inr ⟨there, posted⟩), rfl⟩, .refl o⟩

end Ledger

section Handled

variable {s s' : Store} {e e' : Engine} {m : Moment} {c : Command} {r : Except Rejection Reply}

theorem Handled.onward (h : Records s e) (f : Handled e s m c r e' s') {id : OrderId}
    (untaken : id ∉ (c.taken r).map (·.id)) : Onward s.ledger.get? s'.ledger.get? id :=
  (f.posted h).onward h.ledger (f.records h).ledger untaken

/-- An order is taken in under the id of another only once that one has ended. -/
theorem Handled.taken_over (h : Records s e) (f : Handled e s m c r e' s') {o z : Order}
    (taken : o ∈ c.taken r) (found : s.ledger.get? o.id = some z) : z.status.isTerminal = true := by
  cases f with
  | accepted accepted =>
    obtain ⟨-, fresh, -⟩ := h.sound.rejection?_none.mp accepted
    rw [List.mem_singleton.mp taken] at found
    obtain ⟨there, same⟩ := (h.ledger.holds _ _).mp found
    cases live : z.status.isTerminal with
    | true => rfl
    | false => exact absurd same (fresh z ((h.resting z).mp ⟨there, live⟩))
  | rejected => cases taken
  | cancelled => cases taken
  | absent => cases taken
  | best => cases taken
  | found => cases taken
  | depth => cases taken

end Handled

theorem Worked.onward {d d' : Desk} {clock : Nat → Moment} {ts : List Turn}
    {rs : List (Except Rejection Reply)} {id : OrderId} (w : Worked d clock ts rs d')
    (h : Records d.store d.engine) (untaken : id ∉ (accepted ts rs).map (·.id)) :
    Onward d.store.ledger.get? d'.store.ledger.get? id := by
  induction w with
  | nil => exact .refl _ id
  | command done _ ih =>
    rw [accepted, List.map_append, List.mem_append, not_or] at untaken
    exact (done.onward h untaken.1).trans (ih (done.records h) untaken.2)
  | restart again ledger _ ih =>
    rw [← ledger]
    exact ih again.records untaken

namespace Desk

/-- Over a ledger that was empty at first let there have been any commands and restarts. Whatever
comes next, every record is brought onward as long as no order is taken in under its id; and a
command takes in an order under the id of a record only if the recorded order has ended. -/
theorem records_move_onward (feed : Feed Event) (clock : Nat → Moment) (past : List Turn) :
    ∃ first d rs, start (.ofLedger .empty) feed = .ok first ∧
      first.work clock past = .ok (d, rs) ∧
      (∀ later future, ∃ d' rs', d.work later future = .ok (d', rs') ∧
        ∀ id, id ∉ (accepted future rs').map (·.id) →
          Onward d.store.ledger.get? d'.store.ledger.get? id) ∧
      ∀ c m, ∃ d' r, d.handle c m = .ok (d', r) ∧
        ∀ o ∈ c.taken r, ∀ z, d.store.ledger.get? o.id = some z → z.status.isTerminal = true := by
  obtain ⟨first, started, records, -⟩ := start_empty feed
  obtain ⟨d, rs, hok, worked⟩ := work_spec records clock past
  have now := worked.records records
  refine ⟨first, d, rs, started, hok, fun later future => ?_, fun c m => ?_⟩
  · obtain ⟨d', rs', hok', worked'⟩ := work_spec now later future
    exact ⟨d', rs', hok', fun id untaken => worked'.onward now untaken⟩
  · obtain ⟨d', r, handled, done⟩ := d.handle_spec now.sound c m
    exact ⟨d', r, handled, fun o taken z found => done.taken_over now taken found⟩

/-- A bid trades, and a second one is cancelled; then comes an ask, and somebody starts over. -/
theorem records_move_onward_past_restart :
    let bid : Order := .new ⟨"bid"⟩ .buy .one 5 .epoch
    let ask : Order := .new ⟨"ask"⟩ .sell .one 2 .epoch
    let past : List Turn := [.command (.submit bid), .command (.submit ask),
      .command (.submit { bid with id := ⟨"more"⟩ }), .command (.cancel ⟨"more"⟩)]
    let future : List Turn := [.command (.submit { ask with id := ⟨"late"⟩ }), .restart .standard]
    let clock : Nat → Moment := fun _ => ⟨.epoch, .ofNat⟩
    ∃ first d rs d' rs', start (.ofLedger .empty) .standard = .ok first ∧
      first.work clock past = .ok (d, rs) ∧ d.work clock future = .ok (d', rs') ∧
      (∃ o, d.store.ledger.get? bid.id = some o ∧ o.quantity = 3 ∧
        ∃ o', d'.store.ledger.get? bid.id = some o' ∧ o.Onward o') ∧
      ∃ o, d.store.ledger.get? ⟨"more"⟩ = some o ∧ o.status = .cancelled ∧
        d'.store.ledger.get? ⟨"more"⟩ = some o := by
  intro bid ask past future clock
  obtain ⟨first, d, rs, started, hok, onward, -⟩ := records_move_onward .standard clock past
  obtain ⟨d', rs', hok', on⟩ := onward clock future
  have untaken : ∀ id ∉ (future.flatMap Turn.submitted).map (·.id),
      id ∉ (accepted future rs').map (·.id) := fun id absent taken =>
    absent (((accepted_sublist future rs').map _).subset taken)
  refine ⟨first, d, rs, d', rs', started, hok, hok', ?_⟩
  obtain ⟨again, now, answers, o, more, started', worked, found, left, foundMore, gone⟩ :
      ∃ again now answers o more, start (.ofLedger .empty) .standard = .ok again ∧
        again.work clock past = .ok (now, answers) ∧ now.store.ledger.get? bid.id = some o ∧
        o.quantity = 3 ∧ now.store.ledger.get? ⟨"more"⟩ = some more ∧ more.status = .cancelled :=
    ⟨_, _, _, _, _, start_empty_eq _, rfl, rfl, rfl, rfl, rfl⟩
  obtain rfl : first = again := Except.ok.inj (started.symm.trans started')
  obtain ⟨rfl, rfl⟩ := Prod.mk.inj (Except.ok.inj (hok.symm.trans worked))
  obtain ⟨more', foundMore', onMore⟩ := on ⟨"more"⟩ (untaken _ (by decide)) more foundMore
  have same : more' = more := onMore.ended (by rw [gone]; rfl)
  exact ⟨⟨o, found, left, on bid.id (untaken _ (by decide)) o found⟩, more, foundMore, gone,
    same ▸ foundMore'⟩

/-- An id may serve again. Its record is then that of the new order, though the old one had been
cancelled and less of it was left. -/
theorem record_of_reused_id :
    let bid : Order := .new ⟨"bid"⟩ .buy .one 5 .epoch
    let clock : Nat → Moment := fun _ => ⟨.epoch, .ofNat⟩
    ∃ first d rs d' rs' o o', start (.ofLedger .empty) .standard = .ok first ∧
      first.work clock [.command (.submit bid), .command (.cancel bid.id)] = .ok (d, rs) ∧
      d.work clock [.command (.submit { bid with quantity := 7 })] = .ok (d', rs') ∧
      d.store.ledger.get? bid.id = some o ∧ o.status = .cancelled ∧
      d'.store.ledger.get? bid.id = some o' ∧ o'.status = .opened ∧
      o.quantity = 5 ∧ o'.quantity = 7 := by
  intro bid clock
  exact ⟨_, _, _, _, _, _, _, start_empty_eq _, rfl, rfl, rfl, rfl, rfl, rfl, rfl, rfl⟩

end Desk
end Bourse
