import Bourse.Proofs.Desk.Restart
import Bourse.Proofs.Engine.Counters
import Mathlib.Data.List.Nodup
import Mathlib.Data.List.Perm.Subperm

/-! Whether a second start over the same records finds the book of the first. The orders that came
back are recorded with their new sequences; an order that found no room keeps the one it had, and
with it a place that may now be ahead of theirs. -/
namespace Bourse

/-- The order as it comes back if its sequence need not move. -/
def Order.revived (o : Order) : Order := { o with status := o.liveStatus }

namespace Book

/-- Those of some records that are of an order on this side of the book. -/
def among (b : Book) (side : Side) (os : List Order) : List Order :=
  os.filter fun o => b.contains o.id && o.side == side

/-- None of these orders that the book lacks finds room on its level behind those of the book that
come ahead of it. -/
def Crowded (b : Book) : List Order → List Order → Prop
  | _, [] => True
  | ahead, o :: os =>
    (b.contains o.id = false → 0 < o.quantity →
      Text.maxCount < restingAt o.price (b.among o.side ahead) + o.quantity) ∧
    b.Crowded (ahead ++ [o]) os

instance Crowded.decidable (b : Book) : ∀ ahead os, Decidable (b.Crowded ahead os)
  | _, [] => .isTrue trivial
  | ahead, o :: os =>
    have := decidable b (ahead ++ [o]) os
    inferInstanceAs (Decidable (_ ∧ _))

/-- What a book has of some records. -/
def shared (b : Book) (os : List Order) : List Order :=
  (os.filter (b.contains ·.id)).map Order.revived

variable {b : Book} {o : Order}

theorem shared_append (os os' : List Order) :
    b.shared (os ++ os') = b.shared os ++ b.shared os' := by
  rw [shared, List.filter_append, List.map_append]
  rfl

theorem shared_cons (known : b.contains o.id = true) (os : List Order) :
    b.shared (o :: os) = o.revived :: b.shared os := by
  rw [shared, List.filter_cons_of_pos (p := fun o : Order => b.contains o.id) known, List.map_cons]
  rfl

theorem shared_cons_other (other : b.contains o.id = false) (os : List Order) :
    b.shared (o :: os) = b.shared os := by
  rw [shared, List.filter_cons_of_neg (p := fun o : Order => b.contains o.id) (by simp [other])]
  rfl

/-- What rests at a price of the orders that a book has of some records. -/
theorem Sound.restingAt_shared {b' : Book} {os : List Order} (h : b'.Sound)
    (back : b'.orders.Perm (b.shared os)) (side : Side) (price : Price) :
    restingAt price (b'.ladder side).orders = restingAt price (b.among side os) := by
  have mine : (b.shared os).filter (·.side == side) = (b.among side os).map Order.revived := by
    rw [shared, List.filter_map, List.filter_filter, among]
    refine congrArg _ (List.filter_congr fun o _ => ?_)
    exact Bool.and_comm _ _
  rw [← restingAt_perm (h.side_perm side), restingAt_perm (back.filter _), mine, restingAt,
    List.filter_map, sumOf_map]
  rfl

theorem mem_shared {os : List Order} : o ∈ b.shared os ↔
    ∃ r ∈ os, b.contains r.id = true ∧ r.revived = o := by
  simp [shared, and_assoc]

theorem sorted_shared {os : List Order} (sorted : os.Pairwise fun x y => x.comesBefore y = true) :
    (b.shared os).Pairwise fun x y => x.comesBefore y = true :=
  List.pairwise_map.mpr (sorted.filter _)

theorem nodup_shared {os : List Order} (distinct : (os.map (·.id)).Nodup) :
    (b.shared os).Nodup := by
  have part : (os.filter (b.contains ·.id)).Sublist os := List.filter_sublist
  apply List.Nodup.of_map Order.id
  rw [shared, List.map_map]
  exact List.Nodup.sublist (part.map Order.id) distinct

end Book

namespace Engine

open Book

variable {e e' : Engine} {os placed : List Order} {b : Book} {o : Order}

/-- What comes back differs from what was recorded in sequence and status alone. -/
theorem Returned.of (r : Returned e os placed e') :
    ∀ p ∈ placed, ∃ o ∈ os, p = { o with sequence := p.sequence, status := o.liveStatus } := by
  induction r with
  | nil => exact nofun
  | skipped _ _ ih =>
    intro p hp
    obtain ⟨o, ho, back⟩ := ih p hp
    exact ⟨o, List.mem_cons_of_mem _ ho, back⟩
  | @placed e e₁ e' o os placed _ _ _ _ ih =>
    intro p hp
    rcases List.mem_cons.mp hp with rfl | hp
    · exact ⟨o, List.mem_cons_self, rfl⟩
    · obtain ⟨o, ho, back⟩ := ih p hp
      exact ⟨o, List.mem_cons_of_mem _ ho, back⟩

theorem restored_free (free : e.nextSequence ≤ o.sequence) : e.restored o = o.revived := by
  rw [restored, Nat.max_eq_left free]
  rfl

/-- Behind some of the orders of a book another one finds a place if it finds room. -/
theorem Sound.placeable_behind (h : e.Sound) {ahead : List Order}
    (back : e.book.orders.Perm (b.shared ahead)) (other : b.contains o.id = false) :
    e.book.Placeable (e.restored o) ↔
      0 < o.quantity ∧ restingAt o.price (b.among o.side ahead) + o.quantity ≤ Text.maxCount := by
  have taken := h.book.restingAt_shared back o.side o.price
  constructor
  · intro p
    exact ⟨p.left, taken ▸ p.room⟩
  · rintro ⟨left, room⟩
    refine ⟨left, Order.liveStatus_isTerminal o, fun x hx same => ?_, ?_⟩
    · obtain ⟨y, hy, rfl⟩ := List.mem_map.mp (back.mem_iff.mp hx)
      have known : b.contains o.id = true := same ▸ (List.mem_filter.mp hy).2
      rw [other] at known
      cases known
    · rw [← taken] at room
      exact room

/-- The orders of a book return in the order of their sequences, and with them come all others that
find room. So it is the same book again just if none of the others does. -/
theorem Returned.again (r : Returned e os placed e') (h : e.Sound) (sound : b.Sound)
    {ahead : List Order} (back : e.book.orders.Perm (b.shared ahead))
    (all : b.orders.Perm (b.shared (ahead ++ os)))
    (inTurn : (b.shared os).Pairwise fun x y => x.sequence < y.sequence)
    (free : ∀ o ∈ b.shared os, e.nextSequence ≤ o.sequence)
    (live : ∀ o ∈ os, o.status.isTerminal = false) :
    (e'.book.orders.Perm b.orders ↔ b.Crowded ahead os) ∧
      (b.Crowded ahead os → placed = b.shared os) := by
  induction r generalizing ahead with
  | nil =>
    rw [List.append_nil] at all
    exact ⟨iff_of_true (back.trans all.symm) trivial, fun _ => rfl⟩
  | @skipped e e' o os placed out _ ih =>
    have alive := live o List.mem_cons_self
    have stuck := out.resolve_left (by simp [alive])
    cases known : b.contains o.id with
    | true =>
      rw [shared_cons known] at free
      rw [shared_append, shared_cons known] at all
      have same : e.restored o = o.revived := restored_free (free o.revived List.mem_cons_self)
      have perm : b.orders.Perm (o.revived :: b.shared os ++ e.book.orders) :=
        all.trans (List.perm_append_comm.trans (back.symm.append_left _))
      rw [same] at stuck
      exact absurd (h.placeable_of_perm sound perm (Order.liveStatus_isTerminal o)) stuck
    | false =>
      have same : b.shared (ahead ++ [o]) = b.shared ahead := by
        rw [shared_append, shared_cons_other known]
        exact List.append_nil _
      rw [List.append_cons] at all
      rw [shared_cons_other known] at inTurn free ⊢
      obtain ⟨iff, again⟩ := ih h (same ▸ back) all inTurn free
        fun x hx => live x (List.mem_cons_of_mem _ hx)
      have full : 0 < o.quantity →
          Text.maxCount < restingAt o.price (b.among o.side ahead) + o.quantity := fun left =>
        Nat.lt_of_not_le fun room => stuck ((h.placeable_behind back known).mpr ⟨left, room⟩)
      exact ⟨iff.trans ⟨fun c => ⟨fun _ => full, c⟩, And.right⟩, fun c => again c.2⟩
  | @placed e e₁ e' o os placed _ fits one more ih =>
    cases known : b.contains o.id with
    | true =>
      rw [shared_cons known] at inTurn free ⊢
      have later := List.pairwise_cons.mp inTurn
      have same : e.restored o = o.revived := restored_free (free o.revived List.mem_cons_self)
      have next : e₁.nextSequence = o.sequence + 1 := by
        rw [one.nextSequence, same]
        rfl
      have back' : e₁.book.orders.Perm (b.shared (ahead ++ [o])) := by
        rw [shared_append, shared_cons known]
        exact (same ▸ one.orders).trans
          ((back.cons _).trans (List.perm_append_singleton _ _).symm)
      rw [List.append_cons] at all
      obtain ⟨iff, again⟩ := ih one.sound back' all later.2 (fun x hx => next ▸ later.1 x hx)
        fun x hx => live x (List.mem_cons_of_mem _ hx)
      refine ⟨iff.trans ⟨fun c => ⟨fun other => ?_, c⟩, And.right⟩, fun c => ?_⟩
      · rw [known] at other
        cases other
      · rw [same, again c.2]
    | false =>
      have room := ((h.placeable_behind back known).mp fits).2
      have here : e.restored o ∈ e'.book.orders :=
        more.orders.mem_iff.mpr
          (List.mem_append_right _ (one.orders.mem_iff.mpr List.mem_cons_self))
      have crowded : ¬ b.Crowded ahead (o :: os) := fun c =>
        absurd (c.1 known fits.left) (Nat.not_lt.mpr room)
      refine ⟨iff_of_false (fun perm => ?_) crowded, fun c => absurd c crowded⟩
      have known' := (sound.contains o.id).mpr ⟨_, perm.mem_iff.mp here, rfl⟩
      rw [known] at known'
      cases known'

end Engine

namespace Desk

variable {s : Store} {d : Desk} {placed : List Order}

/-- Of every order that came back the store has a record that only the status may differ from. -/
theorem recorded_of_placed {l' : Ledger} (sound : s.ledger.Sound)
    (distinct : (placed.map (·.id)).Nodup)
    (back : ∀ p ∈ placed, ∃ o ∈ s.ledger.openOrders,
      p = { o with sequence := p.sequence, status := o.liveStatus })
    (updated : Ledger.Updated s.ledger (moved s.ledger.openOrders placed) l') :
    ∀ p ∈ placed, ∃ o ∈ l'.openOrders, p = o.revived := by
  intro p hp
  obtain ⟨o, ho, same⟩ := back p hp
  have id : o.id = p.id := by rw [same]
  by_cases changed : p ∈ moved s.ledger.openOrders placed
  · refine ⟨p, (l'.mem_openOrders p).mpr ⟨(updated.mem p).mpr (.inl changed), ?_⟩, ?_⟩
    · rw [same]
      exact Order.liveStatus_isTerminal o
    · rw [same]
      rfl
  · have kept : o.sequence = p.sequence := by
      refine Decidable.not_not.mp fun other => changed ?_
      exact (mem_moved sound.openOrders ho id).mpr ⟨hp, other⟩
    have there := (s.ledger.mem_openOrders o).mp ho
    refine ⟨o, (l'.mem_openOrders o).mpr ⟨(updated.mem o).mpr (.inr ⟨there.1, fun hm => ?_⟩),
      there.2⟩, ?_⟩
    · obtain ⟨q, hq, other⟩ := List.mem_map.mp hm
      have one : q = p :=
        List.inj_on_of_nodup_map distinct (List.mem_of_mem_filter hq) hp (other.trans id)
      exact changed (one ▸ hq)
    · rw [same, ← kept]
      rfl

/-- What a start without failing calls makes of a store: the open orders come back, and those that
had to move are recorded anew. -/
structure Opened (s : Store) (placed : List Order) (d : Desk) : Prop where
  returned : Engine.Returned (Engine.new.resumeTrades s.ledger.lastTrade) s.ledger.openOrders placed
    d.engine
  calm : d.store.Calm
  updated : Ledger.Updated s.ledger (moved s.ledger.openOrders placed) d.store.ledger
  store : d.store = Store.record { s with calls := s.calls + 2 }
    ((moved s.ledger.openOrders placed).map .updated)

theorem Opened.advances (h : Opened s placed d) :
    Engine.Advances (Engine.new.resumeTrades s.ledger.lastTrade) placed d.engine :=
  h.returned.advances (Engine.sound_new.resume _)

theorem Opened.sound (h : Opened s placed d) : d.engine.Sound := h.advances.sound

theorem placed_perm {last : Nat} {os : List Order} {e : Engine}
    (returned : Engine.Returned (Engine.new.resumeTrades last) os placed e) :
    e.book.orders.Perm placed := by
  simpa [Engine.resumeTrades, Engine.new, Book.empty, Book.orders, Ladder.orders,
    Ladder.empty] using returned.orders

theorem start_opened (calm : s.Calm) (sound : s.ledger.Sound) (feed : Feed Event) :
    ∃ d placed, start s feed = .ok d ∧ Opened s placed d := by
  obtain ⟨d, placed, started, returned, store⟩ := start_calm calm feed
  have engine := (returned.advances (Engine.sound_new.resume _)).sound
  have distinct := ((placed_perm returned).map (·.id)).nodup_iff.mp engine.book.ids
  have part : (moved s.ledger.openOrders placed).Sublist placed := List.filter_sublist
  obtain ⟨calm', ledger⟩ := Store.Calm.record (s := { s with calls := s.calls + 2 }) calm
    ((moved s.ledger.openOrders placed).map .updated)
  have updated := sound.update _ (distinct.sublist (part.map _)) fun p hp => by
    obtain ⟨o, ho, same⟩ := returned.of p (part.subset hp)
    exact List.mem_map.mpr ⟨o, ((s.ledger.mem_openOrders o).mp ho).1, by rw [same]⟩
  rw [← store] at calm' ledger
  rw [← ledger] at updated
  exact ⟨d, placed, started, returned, calm', updated, store⟩

/-- Once a desk has started over records without failing, its book is what it has of its records. -/
theorem Opened.shared (h : Opened s placed d) (sound : s.ledger.Sound) :
    d.engine.book.orders.Perm (d.engine.book.shared d.store.ledger.openOrders) := by
  have book := h.sound.book
  have perm := placed_perm h.returned
  have distinct := (perm.map (·.id)).nodup_iff.mp book.ids
  have records := h.updated.sound.openOrders
  have recorded := recorded_of_placed sound distinct h.returned.of h.updated
  refine (List.perm_ext_iff_of_nodup (.of_map _ book.ids) (Book.nodup_shared records)).mpr
    fun o => ?_
  rw [Book.mem_shared]
  constructor
  · intro ho
    obtain ⟨r, hr, same⟩ := recorded o (perm.mem_iff.mp ho)
    exact ⟨r, hr, (book.contains _).mpr ⟨o, ho, by rw [same]; rfl⟩, same.symm⟩
  · rintro ⟨r, hr, known, rfl⟩
    obtain ⟨q, hq, sameId⟩ := (book.contains _).mp known
    obtain ⟨r', hr', same⟩ := recorded q (perm.mem_iff.mp hq)
    obtain rfl : r' = r := List.inj_on_of_nodup_map records hr' hr
      (Eq.trans (by rw [same]; rfl) sameId)
    exact same ▸ hq

theorem Opened.tally (h : Opened s placed d) {k : Nat} (last : s.ledger.lastTrade ≤ k)
    (low : ∀ o ∈ s.ledger.openOrders, o.sequence ≤ k) :
    d.engine.Tally k s.ledger.openOrders.length := by
  have tally := h.returned.tally ((Engine.tally_new k).resume last) low
  rwa [Nat.zero_add] at tally

/-- An open order that is recorded after a start came back by it, or is recorded as it was. -/
theorem Opened.mem_openOrders (h : Opened s placed d) {o : Order}
    (here : o ∈ d.store.ledger.openOrders) : o ∈ placed ∨ o ∈ s.ledger.openOrders := by
  obtain ⟨recorded, live⟩ := (Ledger.mem_openOrders _ o).mp here
  rcases (h.updated.mem o).mp recorded with changed | ⟨kept, -⟩
  · exact .inl (List.mem_of_mem_filter changed)
  · exact .inr ((Ledger.mem_openOrders _ o).mpr ⟨kept, live⟩)

theorem Opened.length_le (h : Opened s placed d) :
    d.store.ledger.openOrders.length ≤ s.ledger.openOrders.length := by
  have known : d.store.ledger.openOrders.map (·.id) ⊆ s.ledger.openOrders.map (·.id) := by
    intro id hid
    obtain ⟨o, here, rfl⟩ := List.mem_map.mp hid
    rcases h.mem_openOrders here with back | kept
    · obtain ⟨r, hr, same⟩ := h.returned.of o back
      exact List.mem_map.mpr ⟨r, hr, by rw [same]⟩
    · exact List.mem_map_of_mem kept
  simpa using (List.subperm_of_subset h.updated.sound.openOrders known).length_le

theorem Opened.numbers_le (h : Opened s placed d) {k : Nat} (last : s.ledger.lastTrade ≤ k)
    (low : ∀ o ∈ s.ledger.openOrders, o.sequence ≤ k) :
    ∀ o ∈ d.store.ledger.openOrders, o.sequence ≤ k + s.ledger.openOrders.length := by
  intro o here
  rcases h.mem_openOrders here with back | kept
  · exact Nat.lt_succ_iff.mp
      (Nat.lt_of_lt_of_le (h.advances.fresh o back).2 (h.tally last low).sequence)
  · exact Nat.le_trans (low o kept) (Nat.le_add_right _ _)

end Desk

/-- The open orders can be numbered twice behind whatever is recorded, and 64 bits are enough. -/
def Ledger.Roomy (l : Ledger) : Prop :=
  ∀ n ∈ l.lastTrade :: l.openOrders.map (·.sequence), n + 2 * l.openOrders.length < Text.maxCount

namespace Desk

variable {d' : Desk} {placed' : List Order}

/-- Neither of two starts, one after the other, drives a counter out of 64 bits. -/
theorem Opened.inRange {l : Ledger} (roomy : l.Roomy) (h : Opened (.ofLedger l) placed d)
    (h' : Opened d.store placed' d') : d.engine.InRange ∧ d'.engine.InRange := by
  have few := roomy _ List.mem_cons_self
  let k := Text.maxCount - 1 - 2 * l.openOrders.length
  have last : l.lastTrade ≤ k := by omega
  have low : ∀ o ∈ l.openOrders, o.sequence ≤ k := fun o ho => by
    have := roomy _ (List.mem_cons_of_mem _ (List.mem_map_of_mem ho))
    omega
  have lastTrade : d.store.ledger.lastTrade = l.lastTrade := by
    unfold Ledger.lastTrade
    rw [h.updated.trades]
    rfl
  have fewer := h.length_le
  have again := h'.tally (lastTrade ▸ Nat.le_trans last (Nat.le_add_right _ _))
    (h.numbers_le last low)
  change _ ≤ l.openOrders.length at fewer
  exact ⟨(h.tally last low).inRange (by change k + l.openOrders.length < _; omega),
    again.inRange (by change k + l.openOrders.length + _ < _; omega)⟩

/-- A second start over the same records, with no command in between, finds the book of the first
and writes nothing back just if every order that the first start left out still finds no room where
it stands in the records. The numbers in the records leave room for both starts, so that neither
counter leaves the 64 bits it has. -/
theorem settled_iff_crowded {l : Ledger} (sound : l.Sound) (roomy : l.Roomy)
    (feed feed' : Feed Event) :
    ∃ d d', start (.ofLedger l) feed = .ok d ∧ start d.store feed' = .ok d' ∧
      d.engine.InRange ∧ d'.engine.InRange ∧
      (((∀ side, d'.engine.book.ladder side = d.engine.book.ladder side) ∧
          d'.store = { d.store with calls := d.store.calls + 2 }) ↔
        d.engine.book.Crowded [] d.store.ledger.openOrders) := by
  obtain ⟨d, placed, started, h⟩ := start_opened (s := .ofLedger l) rfl sound feed
  have engine := h.sound
  have shared := h.shared sound
  have records := h.updated.sound
  obtain ⟨d', placed', started', h'⟩ := start_opened h.calm records feed'
  obtain ⟨range, range'⟩ := Opened.inRange roomy h h'
  have fresh := Engine.sound_new.resume d.store.ledger.lastTrade
  have sequences := (shared.map (·.sequence)).nodup_iff.mp engine.sequences
  have nothing : (Engine.new.resumeTrades d.store.ledger.lastTrade).book.orders.Perm
      (d.engine.book.shared []) := .refl []
  obtain ⟨same, unmoved⟩ := h'.returned.again fresh engine.book nothing shared
    (Order.sequences_increase (Book.sorted_shared d.store.ledger.openOrders_sorted) sequences)
    (fun o ho => (engine.numbered o (shared.mem_iff.mpr ho)).1)
    fun o ho => ((Ledger.mem_openOrders _ o).mp ho).2
  refine ⟨d, d', started, started', range, range', fun kept => ?_,
    fun crowded => ⟨fun side => ?_, ?_⟩⟩
  · exact same.mp (.of_eq (Book.orders_of_ladders kept.1))
  · exact h'.sound.book.unique engine.book (same.mpr crowded) side
  · have settled : moved d.store.ledger.openOrders placed' = [] := by
      refine moved_eq_nil records.openOrders fun o ho => ?_
      rw [unmoved crowded] at ho
      obtain ⟨r, hr, -, rfl⟩ := Book.mem_shared.mp ho
      exact ⟨r, hr, rfl, rfl⟩
    rw [h'.store, settled]
    rfl

/-- Two bids, and no room for the second: it is left out again, since it stands behind. -/
theorem settled_behind_large_bid :
    let large : Order := { Order.new ⟨"large"⟩ .buy .one Text.maxCount .epoch with sequence := 1 }
    let small : Order := { Order.new ⟨"small"⟩ .buy .one 1 .epoch with sequence := 2 }
    ∃ d d', start (.ofLedger (.ofOrders [large, small])) .standard = .ok d ∧
      start d.store .standard = .ok d' ∧ d.engine.book.bids.orders = [large] ∧
      ∀ side, d'.engine.book.ladder side = d.engine.book.ladder side := by
  intro large small
  let l : Ledger := .ofOrders [large, small]
  have sound : l.Sound := by
    unfold Ledger.Sound
    decide
  have stored : l.openOrders = [large, small] :=
    Ledger.openOrders_eq (.refl _) (by decide) (by decide)
  have roomy : l.Roomy := by
    unfold Ledger.Roomy
    rw [stored]
    decide
  have first : (Engine.new.resumeTrades l.lastTrade).restoreAll [large, small] =
      .ok (⟨⟨⟨.buy, [⟨.one, [large], Text.maxCount⟩]⟩, .empty .sell,
        [(large.id, ⟨.buy, .one, 1⟩)]⟩, 2, 1⟩, [large]) := by
    decide +kernel
  have begun := start_returning (s := .ofLedger l) rfl .standard stored first
  obtain ⟨d, d', started, started', -, -, settled⟩ :=
    settled_iff_crowded sound roomy .standard .standard
  rw [begun] at started
  cases started
  refine ⟨_, d', begun, started', rfl, (settled.mpr ?_).1⟩
  change Book.Crowded _ [] l.openOrders
  rw [stored]
  decide

/-- Here neither bid has a sequence. The large one comes back with the first that is free, and so
is recorded behind the small one, which takes its place when the desk starts again. -/
theorem unsettled_behind_moved_bid :
    let large : Order := .new ⟨"large"⟩ .buy .one Text.maxCount .epoch
    let small : Order := .new ⟨"small"⟩ .buy .one 1 .epoch
    (do
      let d ← start (.ofLedger (.ofOrders [large, small])) .standard
      let d' ← start d.store .standard
      return (d.engine.book.bids.orders, d'.engine.book.bids.orders)) =
    .ok ([{ large with sequence := 1 }], [{ small with sequence := 1 }]) := by
  intro large small
  let alone (o : Order) : Engine :=
    ⟨⟨⟨.buy, [⟨.one, [o], o.quantity⟩]⟩, .empty .sell, [(o.id, ⟨.buy, .one, 1⟩)]⟩, 2, 1⟩
  let back (o : Order) : Order := { o with sequence := 1 }
  have first : Engine.new.restoreAll [large, small] = .ok (alone (back large), [back large]) := by
    decide +kernel
  have second : Engine.new.restoreAll [small, back large] =
      .ok (alone (back small), [back small]) := by
    decide +kernel
  have begun := start_returning (s := .ofLedger (.ofOrders [large, small])) rfl .standard
    (List.mergeSort_of_pairwise (by decide)) first
  have again := start_returning (s := ⟨⟨[back large, small], []⟩, .none, 3⟩) rfl .standard
    (Ledger.openOrders_eq (.swap ..) (by decide) (by decide)) second
  rw [begun, ok_bind]
  change (start ⟨⟨[back large, small], []⟩, .none, 3⟩ .standard >>= _) = _
  rw [again]
  rfl

end Desk
end Bourse
