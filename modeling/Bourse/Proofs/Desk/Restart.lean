import Bourse.Proofs.Desk.Commands
import Bourse.Proofs.Engine.Restoring

/-! A desk that starts over the records of another. It finds the same orders in the same queues,
with every field as it was, and numbers trades on; only the next sequence may be a smaller one. -/
namespace Bourse

namespace Desk

section Moved

variable {recorded placed : List Order} {o r : Order}

theorem recordedSequence?_eq (distinct : (recorded.map (·.id)).Nodup) (here : r ∈ recorded) :
    recordedSequence? recorded r.id = some r.sequence := by
  obtain ⟨x, found⟩ : ∃ x, recorded.reverse.find? (·.id == r.id) = some x :=
    Option.isSome_iff_exists.mp (List.find?_isSome.mpr ⟨r, List.mem_reverse.mpr here, by simp⟩)
  have same : x.id = r.id := by simpa using List.find?_some found
  have there := List.mem_reverse.mp (List.mem_of_find?_eq_some found)
  rw [recordedSequence?, found, List.inj_on_of_nodup_map distinct there here same]
  rfl

theorem mem_moved (distinct : (recorded.map (·.id)).Nodup) (known : r ∈ recorded)
    (same : r.id = o.id) : o ∈ moved recorded placed ↔ o ∈ placed ∧ r.sequence ≠ o.sequence := by
  rw [moved, List.mem_filter, ← same, recordedSequence?_eq distinct known]
  simp

theorem moved_eq_nil (distinct : (recorded.map (·.id)).Nodup)
    (h : ∀ o ∈ placed, ∃ r ∈ recorded, r.id = o.id ∧ r.sequence = o.sequence) :
    moved recorded placed = [] := by
  refine List.eq_nil_iff_forall_not_mem.mpr fun o changed => ?_
  obtain ⟨r, hr, id, sequence⟩ := h o (List.mem_of_mem_filter changed)
  exact ((mem_moved distinct hr id).mp changed).2 sequence

end Moved

end Desk

namespace Ledger

theorem openOrders_sorted (l : Ledger) :
    l.openOrders.Pairwise fun a b => a.comesBefore b = true :=
  List.pairwise_mergeSort Order.comesBefore_trans Order.comesBefore_total _

/-- The open orders are any list of them that is in turn, if no two have the same turn. -/
theorem openOrders_eq {l : Ledger} {os : List Order}
    (perm : (l.orders.filter fun o => !o.status.isTerminal).Perm os)
    (sorted : os.Pairwise fun a b => a.comesBefore b = true) (turns : (os.map (·.turn)).Nodup) :
    l.openOrders = os :=
  (Order.mergeSort_perm perm turns).trans (List.mergeSort_of_pairwise sorted)

theorem mem_openOrders (l : Ledger) (o : Order) :
    o ∈ l.openOrders ↔ o ∈ l.orders ∧ o.status.isTerminal = false := by
  simp [openOrders, List.mem_mergeSort]

theorem Sound.openOrders {l : Ledger} (h : l.Sound) : (l.openOrders.map (·.id)).Nodup := by
  have part : (l.orders.filter fun o => !o.status.isTerminal).Sublist l.orders :=
    List.filter_sublist
  exact ((List.mergeSort_perm _ _).map Order.id).nodup_iff.mpr
    (List.Nodup.sublist (part.map Order.id) h)

end Ledger

namespace Desk

/-- While no call fails, whatever returns of the open orders is on the book, and those of them whose
sequence had to move are recorded anew. -/
theorem start_returning {s : Store} (calm : s.Calm) (feed : Feed Event) {os placed : List Order}
    {e : Engine} (stored : s.ledger.openOrders = os)
    (hok : (Engine.new.resumeTrades s.ledger.lastTrade).restoreAll os = .ok (e, placed)) :
    start s feed = .ok
      { engine := e, feed, serving := true
        store :=
          Store.record { s with calls := s.calls + 2 } ((moved os placed).map .updated) } := by
  have calm' : Store.Calm { s with calls := s.calls + 1 } := calm
  subst stored
  have again : s.ledger.openOrders.mergeSort Order.comesBefore = s.ledger.openOrders :=
    List.mergeSort_of_pairwise s.ledger.openOrders_sorted
  simp only [start, Store.lastTrade, calm.call, Store.openOrders, calm'.call, Engine.restore,
    again, hok, ok_bind]
  rfl

theorem start_calm {s : Store} (calm : s.Calm) (feed : Feed Event) :
    ∃ d placed, start s feed = .ok d ∧
      Engine.Returned (Engine.new.resumeTrades s.ledger.lastTrade) s.ledger.openOrders placed
        d.engine ∧
      d.store = Store.record { s with calls := s.calls + 2 }
        ((moved s.ledger.openOrders placed).map .updated) := by
  obtain ⟨e, placed, hok, returned⟩ :=
    (Engine.sound_new.resume s.ledger.lastTrade).restoreAll s.ledger.openOrders
  exact ⟨_, placed, start_returning calm feed rfl hok, returned, rfl⟩

end Desk

/-- A desk as it starts over the records of an engine: only its counter of orders may differ. -/
structure Restarted (e : Engine) (d : Desk) : Prop where
  records : Records d.store d.engine
  ladders : ∀ side, d.engine.book.ladder side = e.book.ladder side
  nextTrade : d.engine.nextTrade = e.nextTrade
  nextSequence : d.engine.nextSequence ≤ e.nextSequence

theorem Restarted.orders {e : Engine} {d : Desk} (h : Restarted e d) :
    d.engine.book.orders = e.book.orders :=
  Book.orders_of_ladders h.ladders

theorem Records.openOrders {s : Store} {e : Engine} (h : Records s e) :
    s.ledger.openOrders.Perm e.book.orders := by
  refine (List.perm_ext_iff_of_nodup ?_ ?_).mpr fun o => ?_
  · exact List.Nodup.of_map _ h.ledger.openOrders
  · exact List.Nodup.of_map _ h.sound.book.ids
  · rw [Ledger.mem_openOrders, h.resting]

theorem Records.openOrders_sorted {s : Store} {e : Engine} (h : Records s e) :
    s.ledger.openOrders.Pairwise fun a b => a.sequence < b.sequence :=
  Order.sequences_increase s.ledger.openOrders_sorted
    ((h.openOrders.map (·.sequence)).nodup_iff.mpr h.sound.sequences)

/-- Starting over takes two looks at the store and writes nothing. -/
theorem Records.reopen {s : Store} {e : Engine} (h : Records s e) (feed : Feed Event) :
    ∃ d, Desk.start s feed = .ok d ∧ Restarted e d ∧ d.store = { s with calls := s.calls + 2 } := by
  obtain ⟨d, placed, started, returned, store⟩ := Desk.start_calm h.calm feed
  have stored := h.openOrders
  have start := Engine.sound_new.resume s.ledger.lastTrade
  obtain ⟨rfl, perm, nextTrade, bound⟩ := returned.all start h.sound.book
    (by simpa [Engine.resumeTrades, Engine.new, Book.empty, Book.orders, Ladder.orders,
      Ladder.empty] using stored.symm)
    (fun o ho => (h.lively o (stored.mem_iff.mp ho)).status)
    h.openOrders_sorted
    (fun o ho => (h.sound.numbered o (stored.mem_iff.mp ho)).1)
  rw [Desk.moved_eq_nil h.ledger.openOrders fun o ho => ⟨o, ho, rfl, rfl⟩] at store
  have trade : d.engine.nextTrade = e.nextTrade := by
    rw [nextTrade, ← h.trades]
    exact Nat.max_eq_right (Nat.succ_pos _)
  have sound := (returned.advances start).sound
  refine ⟨d, started, ⟨?_, fun side => (h.sound.book.unique sound.book perm side).symm, trade, ?_⟩,
    store⟩
  · rw [store]
    exact
      { sound := sound
        lively := fun o ho => h.lively o (perm.mem_iff.mpr ho)
        calm := h.calm
        ledger := h.ledger
        resting := fun o => (h.resting o).trans perm.mem_iff
        trades := h.trades.trans trade.symm }
  · exact bound _ h.sound.started fun o ho => (h.sound.numbered o (stored.mem_iff.mp ho)).2

theorem Records.start {s : Store} {e : Engine} (h : Records s e) (feed : Feed Event) :
    ∃ d, Desk.start s feed = .ok d ∧ Restarted e d := by
  obtain ⟨d, started, again, -⟩ := h.reopen feed
  exact ⟨d, started, again⟩

end Bourse
