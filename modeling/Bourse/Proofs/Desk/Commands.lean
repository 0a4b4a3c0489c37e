import Bourse.Desk.Basic
import Bourse.Proofs.Engine.Representation
import Bourse.Proofs.Ledger.Store

/-! What a command does to the engine and to the store, and what is replied; and that the records
stay those of the engine: all that is open in the ledger is what rests, and the last trade there is
the last one made. -/
namespace Bourse

/-- All that a command can do to a sound engine and to its store. -/
inductive Handled (e : Engine) (s : Store) (m : Moment) :
    Command → Except Rejection Reply → Engine → Store → Prop where
  | rejected {o : Order} {r : Rejection} : e.rejection? o = some r →
      Handled e s m (.submit o) (.error r) e s
  | accepted {o : Order} {x : Execution} {e' : Engine} : e.rejection? o = none →
      Engine.Accepted e o (e.matchOf o m) e' →
      x = ⟨(e.matchOf o m).taker.settled, (e.matchOf o m).fills⟩ →
      Handled e s m (.submit o) (.ok (.execution x)) e' (s.record x.entries)
  | cancelled {id : OrderId} {o gone : Order} {e' : Engine} : o ∈ e.book.orders → o.id = id →
      Engine.Cancelled e o e' → gone = { o with status := .cancelled, updatedAt := m.now } →
      Handled e s m (.cancel id) (.ok (.cancelled (some gone))) e' (s.record [.updated gone])
  | absent {id : OrderId} : (∀ o ∈ e.book.orders, o.id ≠ id) →
      Handled e s m (.cancel id) (.ok (.cancelled none)) e s
  | best {side : Side} :
      Handled e s m (.best side) (.ok (.order (e.book.ladder side).orders.head?)) e s
  | found {id : OrderId} :
      Handled e s m (.find id) (.ok (.order (e.book.orders.find? (·.id == id)))) e s
  | depth {limit : Nat} :
      Handled e s m (.depth limit) (.ok (.depth (e.book.depth limit m.now))) e s

theorem Desk.handle_spec {d : Desk} (h : d.engine.Sound) (c : Command) (m : Moment) :
    ∃ d' r, d.handle c m = .ok (d', r) ∧ Handled d.engine d.store m c r d'.engine d'.store := by
  cases c with
  | submit o =>
    cases hr : d.engine.rejection? o with
    | some r =>
      refine ⟨d, .error r, ?_, .rejected hr⟩
      simp [handle, submit, Engine.submit_rejected hr, replying, Except.map]
    | none =>
      obtain ⟨e', hok, a⟩ := h.submit hr m
      let x : Execution := ⟨(d.engine.matchOf o m).taker.settled, (d.engine.matchOf o m).fills⟩
      let d' : Desk := { d with engine := e', store := d.store.record x.entries }
      refine ⟨d'.publish (x.events m.now), _, ?_, .accepted hr a rfl⟩
      simp [handle, submit, hok, replying, Except.map, d', x]
  | cancel id =>
    by_cases present : ∃ o ∈ d.engine.book.orders, o.id = id
    · obtain ⟨o, here, rfl⟩ := present
      obtain ⟨e', hok, c⟩ := h.cancel here m.now
      let gone : Order := { o with status := .cancelled, updatedAt := m.now }
      let d' : Desk := { d with engine := e', store := d.store.record [.updated gone] }
      refine ⟨d'.publish [.cancelled gone m.now], _, ?_, .cancelled here rfl c rfl⟩
      simp [handle, cancel, hok, replying, Except.map, d', gone]
    · have absent : ∀ o ∈ d.engine.book.orders, o.id ≠ id := by simpa using present
      refine ⟨d, _, ?_, .absent absent⟩
      simp [handle, cancel, h.cancel_none absent, replying, Except.map]
  | best side =>
    refine ⟨d, _, ?_, .best⟩
    simp [handle, best, Book.best, (h.book.ladders side).best, replying, Except.map]
  | find id =>
    refine ⟨d, _, ?_, .found⟩
    simp [handle, find, h.book.find?, replying, Except.map]
  | depth limit => exact ⟨d, _, rfl, .depth⟩

theorem Desk.handled {d d' : Desk} {c : Command} {m : Moment} {r : Except Rejection Reply}
    (h : d.engine.Sound) (hok : d.handle c m = .ok (d', r)) :
    Handled d.engine d.store m c r d'.engine d'.store := by
  obtain ⟨d₁, r₁, hok₁, f⟩ := d.handle_spec h c m
  rw [hok] at hok₁
  cases hok₁
  exact f

theorem Handled.sound {e e' : Engine} {s s' : Store} {m : Moment} {c : Command}
    {r : Except Rejection Reply} (f : Handled e s m c r e' s') (h : e.Sound) : e'.Sound := by
  cases f with
  | rejected => exact h
  | accepted _ a => exact a.sound
  | cancelled _ _ c => exact c.sound
  | absent => exact h
  | best => exact h
  | found => exact h
  | depth => exact h

/-- What an execution leaves of a ledger: its makers and its order as they are now, and all that
was recorded of others. -/
theorem Ledger.Sound.execution {l : Ledger} (h : l.Sound) (x : Execution)
    (distinct : (x.makers.map (·.id)).Nodup)
    (known : ∀ o ∈ x.makers, o.id ∈ l.orders.map (·.id)) :
    (x.entries.foldl Ledger.enter l).Sound ∧
      (∀ y, y ∈ (x.entries.foldl Ledger.enter l).orders ↔
        y ∈ x.makers ∨ (y = x.order ∨ y ∈ l.orders ∧ y.id ≠ x.order.id) ∧
          y.id ∉ x.makers.map (·.id)) ∧
      (x.entries.foldl Ledger.enter l).trades = l.trades ++ x.trades := by
  have known' : ∀ o ∈ x.makers, o.id ∈ (l.save x.order).orders.map (·.id) := by
    intro o ho
    obtain ⟨y, hy, same⟩ := List.mem_map.mp (known o ho)
    by_cases mine : y.id = x.order.id
    · exact List.mem_map.mpr ⟨x.order, (h.mem_save _).mpr (.inl rfl), mine.symm.trans same⟩
    · exact List.mem_map.mpr ⟨y, (h.mem_save _).mpr (.inr ⟨hy, mine⟩), same⟩
  have updated := (h.save x.order).update x.makers distinct known'
  have mem : ∀ y, y ∈ ((x.makers.map .updated).foldl Ledger.enter (l.save x.order)).orders ↔
      y ∈ x.makers ∨ (y = x.order ∨ y ∈ l.orders ∧ y.id ≠ x.order.id) ∧
        y.id ∉ x.makers.map (·.id) := fun y => by rw [updated.mem, h.mem_save]
  simp only [Execution.entries, List.cons_append, List.foldl_cons, List.foldl_append, Ledger.enter]
  by_cases none : x.fills.isEmpty = true
  · have trades : x.trades = [] := by simp [Execution.trades, List.isEmpty_iff.mp none]
    rw [if_pos none, trades, List.append_nil]
    exact ⟨updated.sound, mem, updated.trades⟩
  · rw [if_neg none]
    refine ⟨updated.sound, mem, ?_⟩
    exact congrArg (· ++ x.trades) updated.trades

theorem foldl_max_range' (last n : Nat) :
    (List.range' (last + 1) n).foldl max last = last + n := by
  induction n generalizing last with
  | zero => rfl
  | succ n ih =>
    rw [List.range'_succ, List.foldl_cons, Nat.max_eq_right (Nat.le_succ last), ih]
    omega

/-- The store has recorded the engine. -/
structure Records (s : Store) (e : Engine) : Prop where
  sound : e.Sound
  lively : e.Lively
  calm : s.Calm
  ledger : s.ledger.Sound
  resting : ∀ o, o ∈ s.ledger.orders ∧ o.status.isTerminal = false ↔ o ∈ e.book.orders
  trades : s.ledger.lastTrade + 1 = e.nextTrade

theorem records_new : Records (.ofLedger .empty) .new where
  sound := Engine.sound_new
  lively o ho := by cases ho
  calm := rfl
  ledger := .nil
  resting o := by simp [Store.ofLedger, Ledger.empty, Engine.new, Book.empty, Book.orders,
    Ladder.orders, Ladder.empty]
  trades := rfl

variable {s s' : Store} {e e' : Engine} {m : Moment} {c : Command} {r : Except Rejection Reply}
  {o : Order}

theorem Records.known (h : Records s e) (here : o ∈ e.book.orders) :
    o.id ∈ s.ledger.orders.map (·.id) :=
  List.mem_map_of_mem ((h.resting o).mpr here).1

theorem Records.known_makers (h : Records s e) (o : Order) (m : Moment) :
    ∀ y ∈ (e.matchOf o m).fills.map (·.maker), y.id ∈ s.ledger.orders.map (·.id) := by
  intro y hy
  obtain ⟨z, hz, same⟩ := (h.sound.makers o m).2 y.id (List.mem_map_of_mem hy)
  exact same ▸ h.known hz

theorem Records.updated (h : Records s e) (here : o ∈ e.book.orders) {gone : Order}
    (id : gone.id = o.id) : (s.record [.updated gone]).Calm ∧
      Ledger.Updated s.ledger [gone] (s.record [.updated gone]).ledger := by
  obtain ⟨calm, ledger⟩ := h.calm.record [.updated gone]
  refine ⟨calm, ?_⟩
  rw [ledger]
  apply h.ledger.update [gone] (List.nodup_singleton _)
  intro x hx
  rw [List.mem_singleton.mp hx, id]
  exact h.known here

theorem Records.cancelled (h : Records s e) (here : o ∈ e.book.orders)
    (c : Engine.Cancelled e o e') {gone : Order} (id : gone.id = o.id)
    (ended : gone.status.isTerminal = true) : Records (s.record [.updated gone]) e' := by
  obtain ⟨calm, updated⟩ := h.updated here id
  have ids := (c.orders.map (·.id)).nodup_iff.mp h.sound.book.ids
  have others : ∀ x ∈ e'.book.orders, x.id ≠ o.id := fun x hx same =>
    (List.nodup_cons.mp ids).1 (List.mem_map.mpr ⟨x, hx, same⟩)
  exact
    { sound := c.sound
      lively := fun x hx => h.lively x (c.orders.mem_iff.mpr (List.mem_cons_of_mem _ hx))
      calm := calm
      ledger := updated.sound
      resting := by
        intro x
        rw [updated.mem, List.map_singleton, List.mem_singleton, List.mem_singleton, id]
        constructor
        · rintro ⟨rfl | ⟨hx, ne⟩, live⟩
          · simp [ended] at live
          · have rests := c.orders.mem_iff.mp ((h.resting x).mp ⟨hx, live⟩)
            exact (List.mem_cons.mp rests).resolve_left fun same => ne (same ▸ rfl)
        · intro hx
          obtain ⟨there, live⟩ :=
            (h.resting x).mpr (c.orders.mem_iff.mpr (List.mem_cons_of_mem _ hx))
          exact ⟨.inr ⟨there, others x hx⟩, live⟩
      trades := by
        rw [Ledger.lastTrade, updated.trades, c.nextTrade]
        exact h.trades }

theorem Records.matched (h : Records s e) (o : Order) (m : Moment) {x : Execution}
    (hx : x = ⟨(e.matchOf o m).taker.settled, (e.matchOf o m).fills⟩) :
    (s.record x.entries).Calm ∧ (s.record x.entries).ledger.Sound ∧
      (∀ y, y ∈ (s.record x.entries).ledger.orders ↔
        y ∈ x.makers ∨ (y = x.order ∨ y ∈ s.ledger.orders ∧ y.id ≠ x.order.id) ∧
          y.id ∉ x.makers.map (·.id)) ∧
      (s.record x.entries).ledger.trades = s.ledger.trades ++ x.trades := by
  have makers : x.makers = (e.matchOf o m).fills.map (·.maker) := by rw [hx]; rfl
  obtain ⟨calm, ledger⟩ := h.calm.record x.entries
  refine ⟨calm, ?_⟩
  rw [ledger]
  apply h.ledger.execution x
  · rw [makers]
    exact (h.sound.makers o m).1
  · rw [makers]
    exact h.known_makers o m

theorem Records.accepted (h : Records s e) (accepted : e.rejection? o = none)
    (a : Engine.Accepted e o (e.matchOf o m) e') {x : Execution}
    (hx : x = ⟨(e.matchOf o m).taker.settled, (e.matchOf o m).fills⟩) :
    Records (s.record x.entries) e' := by
  obtain ⟨-, fresh, -⟩ := h.sound.rejection?_none.mp accepted
  have order : x.order = (e.matchOf o m).taker.settled := by rw [hx]
  have makers : x.makers = (e.matchOf o m).fills.map (·.maker) := by rw [hx]; rfl
  have taken : x.order.id = o.id := by
    obtain ⟨_, _, _, -, settled⟩ := e.matchOf_settled o m
    rw [order, settled]
  obtain ⟨-, resting⟩ := h.sound.makers o m
  have after := a.mem_orders h.sound
  rw [← makers] at resting after
  rw [← order] at after
  obtain ⟨calm, sound, mem, trades⟩ := h.matched o m hx
  exact
    { sound := a.sound
      lively := a.lively h.lively
      calm := calm
      ledger := sound
      -- The ledger has the makers and the order as they now are, and all others as before.
      resting := by
        intro y
        rw [mem, after]
        constructor
        · rintro ⟨made | ⟨rfl | ⟨kept, -⟩, others⟩, live⟩
          · exact .inr (.inl ⟨made, live⟩)
          · exact .inl ⟨rfl, live⟩
          · exact .inr (.inr ⟨(h.resting y).mp ⟨kept, live⟩, others⟩)
        · rintro (⟨rfl, live⟩ | ⟨made, live⟩ | ⟨here, others⟩)
          · refine ⟨.inr ⟨.inl rfl, fun hm => ?_⟩, live⟩
            obtain ⟨z, hz, same⟩ := resting _ hm
            exact fresh z hz (same.trans taken)
          · exact ⟨.inl made, live⟩
          · obtain ⟨kept, live⟩ := (h.resting y).mpr here
            exact ⟨.inr ⟨.inr ⟨kept, taken ▸ fresh y here⟩, others⟩, live⟩
      trades := by
        have numbers : x.trades.map (·.sequence) =
            List.range' (s.ledger.lastTrade + 1) (e.matchOf o m).fills.length := by
          rw [h.trades, Execution.trades, List.map_map, hx]
          exact matchQueue_sequences m e.nextTrade (e.takerOf o) _
        have last : (s.record x.entries).ledger.lastTrade =
            s.ledger.lastTrade + (e.matchOf o m).fills.length := by
          rw [Ledger.lastTrade, trades, List.map_append, List.foldl_append, numbers]
          exact foldl_max_range' _ _
        rw [last, a.nextTrade, ← h.trades]
        omega }

theorem Handled.records (h : Records s e) (f : Handled e s m c r e' s') : Records s' e' := by
  cases f with
  | rejected => exact h
  | accepted accepted a hx => exact h.accepted accepted a hx
  | cancelled here _ c gone => exact h.cancelled here c (by rw [gone]) (by rw [gone]; rfl)
  | absent => exact h
  | best => exact h
  | found => exact h
  | depth => exact h

end Bourse
