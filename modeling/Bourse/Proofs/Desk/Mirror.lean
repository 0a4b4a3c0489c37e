import Bourse.Proofs.Desk.Sessions

/-! The ledger mirrors the book. What is open there is what rests, and every other record is of an
order that has ended; no record is missed by an update; and the trades there are those of the
replies, numbered without a gap. -/
namespace Bourse

/-- What is recorded of a command that was replied to in this way. -/
def written : Except Rejection Reply → List Entry
  | .ok (.execution x) => x.entries
  | .ok (.cancelled (some o)) => [.updated o]
  | _ => []

section Handled

variable {s s' : Store} {e e' : Engine} {m : Moment} {c : Command} {r : Except Rejection Reply}

theorem Handled.store (f : Handled e s m c r e' s') : s' = s.record (written r) := by
  cases f <;> rfl

theorem updated_mem_entries {x : Execution} {o : Order} (h : .updated o ∈ x.entries) :
    o ∈ x.makers := by
  unfold Execution.entries at h
  rcases List.mem_append.mp h with h | h
  · rcases List.mem_cons.mp h with h | h
    · cases h
    · obtain ⟨y, hy, same⟩ := List.mem_map.mp h
      cases same
      exact hy
  · split at h
    · cases h
    · cases List.mem_singleton.mp h

theorem Handled.accepts (h : Records s e) (f : Handled e s m c r e' s') :
    s.Accepts (written r) := by
  apply h.calm.accepts
  intro o ho
  cases f with
  | rejected => cases ho
  | accepted _ _ hx =>
    have made := updated_mem_entries ho
    rw [hx] at made
    exact h.known_makers _ _ o made
  | cancelled here _ _ hg =>
    have known := h.known here
    cases List.mem_singleton.mp ho
    rw [hg]
    exact known
  | absent => cases ho
  | best => cases ho
  | found => cases ho
  | depth => cases ho

end Handled

theorem Records.ended {s : Store} {e : Engine} (h : Records s e) (kept : s.ledger.Kept)
    {r : Order} (there : r ∈ s.ledger.orders) (gone : r ∉ e.book.orders) :
    r.status = .filled ∧ r.quantity = 0 ∨ r.status = .cancelled := by
  have filled := kept.filled r there
  have ended : r.status.isTerminal ≠ false := fun live => gone ((h.resting r).mp ⟨there, live⟩)
  cases hs : r.status with
  | opened => simp [hs, Status.isTerminal] at ended
  | partlyFilled => simp [hs, Status.isTerminal] at ended
  | filled => exact .inl ⟨rfl, filled.mp hs⟩
  | cancelled => exact .inr rfl

namespace Desk

/-- The store as a mirror of the book, after these replies. -/
structure Mirrored (d : Desk) (rs : List (Except Rejection Reply)) : Prop where
  opened : ∃ os, d.store.openOrders.2 = .ok os ∧ os.Perm d.engine.book.orders ∧
    os.Pairwise fun a b => a.sequence < b.sequence
  ended : ∀ r ∈ d.store.ledger.orders, r ∉ d.engine.book.orders →
    r.status = .filled ∧ r.quantity = 0 ∨ r.status = .cancelled
  trades : d.store.ledger.trades = rs.flatMap tradesOf
  numbers : d.store.ledger.trades.map (·.sequence) = List.range' 1 d.store.ledger.trades.length
  updates : ∀ c m, ∃ d' r, d.handle c m = .ok (d', r) ∧ d'.store = d.store.record (written r) ∧
    d.store.Accepts (written r)
  restarts : ∀ feed, ∃ d', start d.store feed = .ok d' ∧
    d'.store = { d.store with calls := d.store.calls + 2 }

theorem mirrored {d : Desk} {rs : List (Except Rejection Reply)}
    (h : Records d.store d.engine) (kept : d.store.ledger.Kept)
    (trades : d.store.ledger.trades = rs.flatMap tradesOf) : d.Mirrored rs where
  opened := by
    refine ⟨d.store.ledger.openOrders, ?_, h.openOrders, h.openOrders_sorted⟩
    rw [Store.openOrders, h.calm.call]
  ended r := h.ended kept
  trades := trades
  numbers := kept.numbers
  updates c m := by
    obtain ⟨d', r, hok, f⟩ := d.handle_spec h.sound c m
    exact ⟨d', r, hok, f.store, f.accepts h⟩
  restarts feed := by
    obtain ⟨d', hok, -, store⟩ := h.reopen feed
    exact ⟨d', hok, store⟩

/-- Over a ledger that was empty at first the store mirrors the book after all commands and
restarts. -/
theorem ledger_mirrors_book (feed : Feed Event) (clock : Nat → Moment) (past : List Turn) :
    ∃ first d rs, start (.ofLedger .empty) feed = .ok first ∧
      first.store = { Store.ofLedger .empty with calls := 2 } ∧
      first.work clock past = .ok (d, rs) ∧ d.Mirrored rs := by
  obtain ⟨first, started, records, store⟩ := start_empty feed
  obtain ⟨d, rs, hok, worked⟩ := work_spec records clock past
  have empty : first.store.ledger = .empty := by rw [store]; rfl
  refine ⟨first, d, rs, started, store, hok, ?_⟩
  apply mirrored (worked.records records)
  · exact worked.kept records (empty ▸ Ledger.kept_empty)
  · rw [worked.trades records, empty]
    rfl

end Desk
end Bourse
