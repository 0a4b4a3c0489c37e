import Bourse.Proofs.Desk.Postings
import Bourse.Proofs.Desk.Takeover

/-! A desk at work in one session after another, each over the records of the one before. What one
turn does is a step of `Worked`; what every step keeps holds at the end of all of them. -/
namespace Bourse

inductive Worked :
    Desk → (Nat → Moment) → List Turn → List (Except Rejection Reply) → Desk → Prop where
  | nil {d : Desk} {clock : Nat → Moment} : Worked d clock [] [] d
  | command {d d₁ d' : Desk} {clock : Nat → Moment} {c : Command} {r : Except Rejection Reply}
      {ts : List Turn} {rs : List (Except Rejection Reply)} :
      Handled d.engine d.store (clock 0) c r d₁.engine d₁.store →
      Worked d₁ (fun n => clock (n + 1)) ts rs d' → Worked d clock (.command c :: ts) (r :: rs) d'
  | restart {d d₁ d' : Desk} {clock : Nat → Moment} {feed : Feed Event} {ts : List Turn}
      {rs : List (Except Rejection Reply)} :
      Restarted d.engine d₁ → d₁.store.ledger = d.store.ledger →
      Worked d₁ clock ts rs d' → Worked d clock (.restart feed :: ts) rs d'

theorem Desk.work_spec {d : Desk} (h : Records d.store d.engine) (clock : Nat → Moment)
    (ts : List Turn) : ∃ d' rs, d.work clock ts = .ok (d', rs) ∧ Worked d clock ts rs d' := by
  induction ts generalizing d clock with
  | nil => exact ⟨d, [], rfl, .nil⟩
  | cons t ts ih =>
    cases t with
    | command c =>
      obtain ⟨d₁, r, hok, done⟩ := d.handle_spec h.sound c (clock 0)
      obtain ⟨d', rs, more, worked⟩ := ih (done.records h) fun n => clock (n + 1)
      exact ⟨d', r :: rs, by simp [Desk.work, hok, more], .command done worked⟩
    | restart feed =>
      obtain ⟨d₁, hok, again, store⟩ := h.reopen feed
      obtain ⟨d', rs, more, worked⟩ := ih again.records clock
      exact ⟨d', rs, by simp [Desk.work, hok, more], .restart again (by rw [store]) worked⟩

theorem Desk.start_empty (feed : Feed Event) :
    ∃ first, Desk.start (.ofLedger .empty) feed = .ok first ∧
      Records first.store first.engine ∧
      first.store = { Store.ofLedger .empty with calls := 2 } := by
  obtain ⟨first, started, again, store⟩ := records_new.reopen feed
  exact ⟨first, started, again.records, store⟩

/-- The trades are numbered from one on without a gap, and an order is filled as soon as nothing is
left of it. -/
structure Ledger.Kept (l : Ledger) : Prop where
  numbers : l.trades.map (·.sequence) = List.range' 1 l.trades.length
  filled : ∀ r ∈ l.orders, r.status = .filled ↔ r.quantity = 0

namespace Ledger

theorem kept_empty : Ledger.empty.Kept := ⟨rfl, nofun⟩

variable {l l' : Ledger} {taken os : List Order} {ts : List Trade}

theorem Kept.lastTrade (h : l.Kept) : l.lastTrade = l.trades.length := by
  rw [Ledger.lastTrade, h.numbers]
  exact (foldl_max_range' 0 _).trans (Nat.zero_add _)

theorem Posted.kept (p : Posted l taken os ts l') (h : l.Kept) : l'.Kept where
  numbers := by
    rw [p.trades, List.map_append, h.numbers, p.numbers, h.lastTrade, List.length_append,
      Nat.add_comm l.trades.length 1, List.range'_append_1]
  filled := by
    intro r hr
    rcases (p.mem r).mp hr with posted | ⟨kept, -⟩
    · exact p.filled r posted
    · exact h.filled r kept

end Ledger

namespace Worked

variable {d d' : Desk} {clock : Nat → Moment} {ts : List Turn}
  {rs : List (Except Rejection Reply)}

theorem records (w : Worked d clock ts rs d') (h : Records d.store d.engine) :
    Records d'.store d'.engine := by
  induction w with
  | nil => exact h
  | command done _ ih => exact ih (done.records h)
  | restart again _ _ ih => exact ih again.records

theorem kept (w : Worked d clock ts rs d') (h : Records d.store d.engine)
    (kept : d.store.ledger.Kept) : d'.store.ledger.Kept := by
  induction w with
  | nil => exact kept
  | command done _ ih => exact ih (done.records h) ((done.posted h).kept kept)
  | restart again ledger _ ih => exact ih again.records (ledger ▸ kept)

theorem trades (w : Worked d clock ts rs d') (h : Records d.store d.engine) :
    d'.store.ledger.trades = d.store.ledger.trades ++ rs.flatMap tradesOf := by
  induction w with
  | nil => exact (List.append_nil _).symm
  | command done _ ih =>
    rw [ih (done.records h), (done.posted h).trades, List.flatMap_cons, List.append_assoc]
  | restart again ledger _ ih => rw [ih again.records, ledger]

end Worked
end Bourse
