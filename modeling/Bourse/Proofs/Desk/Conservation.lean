import Bourse.Proofs.Desk.Sessions

/-! No quantity is lost or made. As long as no id is taken twice, the ledger tells of every order
how much of it was submitted, and its trades tell what has become of that. -/
namespace Bourse

theorem sumOf_by_key {α β κ : Type} [BEq κ] [LawfulBEq κ] {key : β → κ} {tag : α → κ} (f : α → Nat)
    {bs : List β} (distinct : (bs.map key).Nodup) {as : List α}
    (held : ∀ a ∈ as, tag a ∈ bs.map key) :
    sumOf (fun b => sumOf f (as.filter (key b == tag ·))) bs = sumOf f as := by
  induction as with
  | nil => exact sumOf_zero bs
  | cons a as ih =>
    obtain ⟨b, hb, same⟩ := List.mem_map.mp (held a List.mem_cons_self)
    -- The first summand falls to its one holder, the others are held as before.
    have apart : ∀ x ∈ bs, sumOf f ((a :: as).filter (key x == tag ·)) =
        (if key x == key b then f a else 0) + sumOf f (as.filter (key x == tag ·)) := by
      intro x _
      rw [List.filter_cons, same]
      split
      · rfl
      · exact (Nat.zero_add _).symm
    have once : sumOf (fun x => if key x == key b then f a else 0) bs = f a := by
      rw [← sumOf_filter (fun _ => f a), filter_key_of_mem distinct hb, sumOf_cons, sumOf_nil,
        Nat.add_zero]
    rw [sumOf_congr apart, sumOf_add, once, ih fun x hx => held x (List.mem_cons_of_mem _ hx),
      sumOf_cons]

namespace Ledger

variable {l l' : Ledger} {acc taken os : List Order} {ts : List Trade} {r y : Order}

/-- The books balance after the orders `acc` were taken in. -/
structure Balanced (acc : List Order) (l : Ledger) : Prop where
  recorded : ∀ o ∈ acc, ∃ r ∈ l.orders, r.id = o.id ∧ r.side = o.side ∧ r.size = o.quantity
  known : ∀ r ∈ l.orders, ∃ o ∈ acc, o.id = r.id
  paid : ∀ r ∈ l.orders, sumOf Trade.quantity (l.tradesFor r.id) + r.quantity = r.size
  parties : ∀ t ∈ l.trades, ∀ side, ∃ r ∈ l.orders, r.id = t.party side ∧ r.side = side

theorem Balanced.tradesFor_eq_nil (b : Balanced acc l) {id : OrderId}
    (fresh : id ∉ acc.map (·.id)) : l.tradesFor id = [] := by
  apply List.filter_eq_nil_iff.mpr
  intro t ht involved
  obtain ⟨side, same⟩ := (t.involves_iff id).mp involved
  obtain ⟨r, hr, party, -⟩ := b.parties t ht side
  obtain ⟨o, ho, known⟩ := b.known r hr
  exact fresh (List.mem_map.mpr ⟨o, ho, known.trans (party.trans same)⟩)

theorem balanced_empty : Balanced [] .empty := ⟨nofun, nofun, nofun, nofun⟩

theorem Posted.tradesFor (p : Posted l taken os ts l') (id : OrderId) :
    l'.tradesFor id = l.tradesFor id ++ ts.filter (·.involves id) := by
  rw [Ledger.tradesFor, p.trades, List.filter_append]
  rfl

section Posting

variable (p : Posted l taken os ts l') (sound : l.Sound) (b : Balanced acc l)
  (fresh : ∀ o ∈ taken, o.id ∉ acc.map (·.id))

include p sound b fresh

theorem Posted.successor (hr : r ∈ l.orders) (hy : y ∈ os) (same : y.id = r.id) :
    r.status.isTerminal = false ∧ r.Traded ts y := by
  rcases p.written y hy with ⟨o, ho, traded⟩ | ⟨z, hz, live, traded⟩
  · obtain ⟨x, hx, id⟩ := b.known r hr
    have taken : o.id = x.id := traded.id.symm.trans (same.trans id.symm)
    exact absurd (taken ▸ List.mem_map_of_mem hx) (fresh o ho)
  · have one : z = r := List.inj_on_of_nodup_map sound hz hr (traded.id.symm.trans same)
    exact one ▸ ⟨live, traded⟩

theorem Posted.carried (hr : r ∈ l.orders) :
    ∃ r' ∈ l'.orders, r'.id = r.id ∧ r'.side = r.side ∧ r'.size = r.size := by
  by_cases posted : r.id ∈ os.map (·.id)
  · obtain ⟨y, hy, same⟩ := List.mem_map.mp posted
    obtain ⟨-, traded⟩ := p.successor sound b fresh hr hy same
    exact ⟨y, (p.mem y).mpr (.inl hy), traded.id, traded.side, traded.size⟩
  · exact ⟨r, (p.mem r).mpr (.inr ⟨hr, posted⟩), rfl, rfl, rfl⟩

theorem Posted.balanced : Balanced (acc ++ taken) l' where
  recorded := by
    intro o ho
    rcases List.mem_append.mp ho with ho | ho
    · obtain ⟨r, hr, id, side, size⟩ := b.recorded o ho
      obtain ⟨r', hr', id', side', size'⟩ := p.carried sound b fresh hr
      exact ⟨r', hr', id'.trans id, side'.trans side, size'.trans size⟩
    · obtain ⟨y, hy, traded⟩ := p.opened o ho
      exact ⟨y, (p.mem y).mpr (.inl hy), traded.id, traded.side, traded.size⟩
  known := by
    intro r hr
    rcases (p.mem r).mp hr with hy | ⟨hr, -⟩
    · rcases p.written r hy with ⟨o, ho, traded⟩ | ⟨z, hz, -, traded⟩
      · exact ⟨o, List.mem_append_right _ ho, traded.id.symm⟩
      · obtain ⟨o, ho, id⟩ := b.known z hz
        exact ⟨o, List.mem_append_left _ ho, id.trans traded.id.symm⟩
    · obtain ⟨o, ho, id⟩ := b.known r hr
      exact ⟨o, List.mem_append_left _ ho, id⟩
  paid := by
    intro r hr
    rw [p.tradesFor, sumOf_append]
    -- The record is the first of its order, goes on from an earlier one, or has been let alone.
    rcases (p.mem r).mp hr with hy | ⟨hr, apart⟩
    · rcases p.written r hy with ⟨o, ho, traded⟩ | ⟨z, hz, -, traded⟩
      · have before : l.tradesFor o.id = [] := b.tradesFor_eq_nil (fresh o ho)
        have now : sumOf Trade.quantity (ts.filter (·.involves o.id)) + r.quantity = o.quantity :=
          traded.quantity
        have size : r.size = o.quantity := traded.size
        have id : r.id = o.id := traded.id
        rw [id, before, size, sumOf_nil, Nat.zero_add]
        exact now
      · have before := b.paid z hz
        have now := traded.quantity
        rw [traded.size, traded.id]
        omega
    · rw [p.uninvolved apart]
      exact b.paid r hr
  parties := by
    intro t ht side
    rw [p.trades] at ht
    rcases List.mem_append.mp ht with ht | ht
    · obtain ⟨r, hr, id, own⟩ := b.parties t ht side
      obtain ⟨r', hr', id', side', -⟩ := p.carried sound b fresh hr
      exact ⟨r', hr', id'.trans id, side'.trans own⟩
    · obtain ⟨y, hy, id, own⟩ := p.parties t ht side
      exact ⟨y, (p.mem y).mpr (.inl hy), id, own⟩

theorem Posted.last (hr : r ∈ l.orders) (ended : r.status.isTerminal = true) :
    r ∈ l'.orders ∧ l'.tradesFor r.id = l.tradesFor r.id := by
  have apart : r.id ∉ os.map (·.id) := by
    intro posted
    obtain ⟨y, hy, same⟩ := List.mem_map.mp posted
    obtain ⟨live, -⟩ := p.successor sound b fresh hr hy same
    rw [ended] at live
    cases live
  refine ⟨(p.mem r).mpr (.inr ⟨hr, apart⟩), ?_⟩
  rw [p.tradesFor, p.uninvolved apart, List.append_nil]

end Posting

theorem Balanced.tradesFor (b : Balanced acc l) (sound : l.Sound) (hr : r ∈ l.orders) :
    l.tradesFor r.id = l.trades.filter (r.id == ·.party r.side) := by
  apply List.filter_congr
  intro t ht
  rw [Bool.eq_iff_iff, t.involves_iff, beq_iff_eq]
  constructor
  · rintro ⟨side, same⟩
    -- An order trades on its own side only, since there is one record of it.
    obtain ⟨x, hx, id, own⟩ := b.parties t ht side
    have one : x = r := List.inj_on_of_nodup_map sound hx hr (id.trans same)
    rw [← one, own]
    exact id
  · intro same
    exact ⟨r.side, same.symm⟩

theorem Balanced.total (b : Balanced acc l) (sound : l.Sound) (side : Side) :
    sumOf Order.filled (l.orders.filter (·.side == side)) = sumOf Trade.quantity l.trades := by
  have each : ∀ r ∈ l.orders.filter (·.side == side),
      r.filled = sumOf Trade.quantity (l.trades.filter (r.id == ·.party side)) := by
    intro r hr
    obtain ⟨here, own⟩ := List.mem_filter.mp hr
    have paid := b.paid r here
    rw [b.tradesFor sound here, beq_iff_eq.mp own] at paid
    rw [Order.filled, ← paid, Nat.add_sub_cancel]
  rw [sumOf_congr each]
  apply sumOf_by_key
  · exact sound.sublist (List.filter_sublist.map _)
  · intro t ht
    obtain ⟨r, hr, id, own⟩ := b.parties t ht side
    exact List.mem_map.mpr ⟨r, List.mem_filter.mpr ⟨hr, beq_iff_eq.mpr own⟩, id⟩

end Ledger

/-- The orders that were taken in, by the turns and the replies to the commands among them. -/
def accepted : List Turn → List (Except Rejection Reply) → List Order
  | [], _ => []
  | .restart _ :: ts, rs => accepted ts rs
  | .command _ :: _, [] => []
  | .command c :: ts, r :: rs => c.taken r ++ accepted ts rs

def Turn.submitted : Turn → List Order
  | command (.submit o) => [o]
  | _ => []

theorem accepted_sublist (ts : List Turn) (rs : List (Except Rejection Reply)) :
    (accepted ts rs).Sublist (ts.flatMap Turn.submitted) := by
  induction ts generalizing rs with
  | nil => exact .slnil
  | cons t ts ih =>
    cases t with
    | restart feed => exact ih rs
    | command c =>
      cases rs with
      | nil => exact List.nil_sublist _
      | cons r rs =>
        have one : (c.taken r).Sublist (Turn.command c).submitted := by
          unfold Command.taken
          split
          · exact .refl _
          · exact List.nil_sublist _
        exact one.append (ih rs)

theorem fresh_of_nodup {acc taken more : List Order}
    (distinct : ((acc ++ taken ++ more).map (·.id)).Nodup) :
    ∀ o ∈ taken, o.id ∉ acc.map (·.id) := by
  rw [List.map_append, List.map_append] at distinct
  obtain ⟨-, -, apart⟩ := List.nodup_append.mp (List.nodup_append.mp distinct).1
  intro o ho known
  exact apart o.id known o.id (List.mem_map_of_mem ho) rfl

namespace Worked

variable {d d' : Desk} {clock : Nat → Moment} {ts : List Turn}
  {rs : List (Except Rejection Reply)} {acc : List Order}

theorem balanced (w : Worked d clock ts rs d') (h : Records d.store d.engine)
    (b : d.store.ledger.Balanced acc) (distinct : ((acc ++ accepted ts rs).map (·.id)).Nodup) :
    d'.store.ledger.Balanced (acc ++ accepted ts rs) := by
  induction w generalizing acc with
  | nil =>
    rw [accepted, List.append_nil]
    exact b
  | command done _ ih =>
    rw [accepted, ← List.append_assoc] at distinct ⊢
    have fresh := fresh_of_nodup distinct
    exact ih (done.records h) ((done.posted h).balanced h.ledger b fresh) distinct
  | restart again ledger _ ih => exact ih again.records (ledger ▸ b) distinct

theorem last (w : Worked d clock ts rs d') (h : Records d.store d.engine)
    (b : d.store.ledger.Balanced acc) (distinct : ((acc ++ accepted ts rs).map (·.id)).Nodup)
    {r : Order} (hr : r ∈ d.store.ledger.orders) (ended : r.status.isTerminal = true) :
    r ∈ d'.store.ledger.orders ∧
      d'.store.ledger.tradesFor r.id = d.store.ledger.tradesFor r.id := by
  induction w generalizing acc with
  | nil => exact ⟨hr, rfl⟩
  | command done _ ih =>
    rw [accepted, ← List.append_assoc] at distinct
    have fresh := fresh_of_nodup distinct
    have posted := done.posted h
    obtain ⟨stays, same⟩ := posted.last h.ledger b fresh hr ended
    obtain ⟨stays', same'⟩ :=
      ih (done.records h) (posted.balanced h.ledger b fresh) distinct stays
    exact ⟨stays', same'.trans same⟩
  | restart again ledger _ ih =>
    rw [← ledger] at hr b ⊢
    exact ih again.records b distinct hr

end Worked

/-- What the ledger tells of the orders that were taken in. -/
structure Ledger.Accounted (taken : List Order) (l : Ledger) : Prop where
  recorded : ∀ o ∈ taken, ∃ r, l.get? o.id = some r ∧ r.side = o.side ∧ r.size = o.quantity ∧
    sumOf Trade.quantity (l.tradesFor o.id) + r.quantity = r.size
  known : ∀ r ∈ l.orders, ∃ o ∈ taken, o.id = r.id
  filled : ∀ r ∈ l.orders, r.status = .filled ↔ r.quantity = 0
  totals : ∀ side, sumOf Order.filled (l.orders.filter (·.side == side)) =
    sumOf Trade.quantity l.trades

theorem Ledger.Balanced.accounted {l : Ledger} {acc : List Order} (b : Balanced acc l)
    (sound : l.Sound) (kept : l.Kept) : Accounted acc l where
  recorded := by
    intro o ho
    obtain ⟨r, hr, id, side, size⟩ := b.recorded o ho
    have found : l.get? r.id = some r := find_key_of_mem sound hr
    have paid := b.paid r hr
    rw [id] at found paid
    exact ⟨r, found, side, size, paid⟩
  known := b.known
  filled := kept.filled
  totals := b.total sound

namespace Desk

/-- A desk that has taken these orders in, counting from an empty ledger. Its engine neither loses
nor makes any quantity; and while no id is taken in twice, its ledger accounts for all orders, and
the cancelled ones stay as they are whatever comes next. -/
structure Accounts (d : Desk) (taken : List Order) : Prop where
  conserves : d.engine.Conserves
  accounted : (taken.map (·.id)).Nodup → d.store.ledger.Accounted taken
  settled : ∀ clock ts, ∃ d' rs, d.work clock ts = .ok (d', rs) ∧
    (((taken ++ accepted ts rs).map (·.id)).Nodup →
      ∀ r ∈ d.store.ledger.orders, r.status = .cancelled → r ∈ d'.store.ledger.orders ∧
        d'.store.ledger.tradesFor r.id = d.store.ledger.tradesFor r.id)

theorem accounts {d : Desk} {taken : List Order} (h : Records d.store d.engine)
    (kept : d.store.ledger.Kept)
    (balanced : (taken.map (·.id)).Nodup → d.store.ledger.Balanced taken) : d.Accounts taken where
  conserves := h.sound.conserves
  accounted distinct := (balanced distinct).accounted h.ledger kept
  settled clock ts := by
    obtain ⟨d', rs, hok, worked⟩ := work_spec h clock ts
    refine ⟨d', rs, hok, fun distinct r hr cancelled => ?_⟩
    have before := distinct
    rw [List.map_append] at before
    apply worked.last h (balanced (List.nodup_append.mp before).1) distinct hr
    rw [cancelled]
    rfl

/-- After any commands and restarts the desk can account for every order, and so can an engine that
was called by itself for every submission. -/
theorem quantity_conserved (feed : Feed Event) (clock : Nat → Moment) (past : List Turn) :
    (∃ first d rs, start (.ofLedger .empty) feed = .ok first ∧
      first.work clock past = .ok (d, rs) ∧ d.Accounts (accepted past rs)) ∧
    ∀ ss, ∃ e outs, Engine.new.run ss = .ok (e, outs) ∧ e.Conserves := by
  constructor
  · obtain ⟨first, started, records, store⟩ := start_empty feed
    obtain ⟨d, rs, hok, worked⟩ := work_spec records clock past
    have empty : first.store.ledger = .empty := by rw [store]; rfl
    refine ⟨first, d, rs, started, hok, accounts (worked.records records) ?_ ?_⟩
    · exact worked.kept records (empty ▸ Ledger.kept_empty)
    · exact worked.balanced records (empty ▸ Ledger.balanced_empty)
  · intro ss
    obtain ⟨e, outs, hok, ran⟩ := Engine.sound_new.run ss
    exact ⟨e, outs, hok, (ran.advances Engine.sound_new).sound.conserves⟩

/-- A bid that is cancelled after it has traded, then a restart and another ask. -/
theorem quantity_conserved_past_cancellation :
    let ask : Order := .new ⟨"ask"⟩ .sell .one 2 .epoch
    let bid : Order := .new ⟨"bid"⟩ .buy .one 5 .epoch
    let past : List Turn :=
      [.command (.submit ask), .command (.submit bid), .command (.cancel bid.id)]
    let future : List Turn :=
      [.restart .standard, .command (.submit { ask with id := ⟨"late"⟩ })]
    let clock : Nat → Moment := fun _ => ⟨.epoch, .ofNat⟩
    ∃ first d rs d' rs', start (.ofLedger .empty) .standard = .ok first ∧
      first.work clock past = .ok (d, rs) ∧ d.store.ledger.Accounted (accepted past rs) ∧
      d.work clock future = .ok (d', rs') ∧
      ∀ r ∈ d.store.ledger.orders, r.status = .cancelled → r ∈ d'.store.ledger.orders ∧
        d'.store.ledger.tradesFor r.id = d.store.ledger.tradesFor r.id := by
  intro ask bid past future clock
  obtain ⟨⟨first, d, rs, started, hok, accounts⟩, -⟩ := quantity_conserved .standard clock past
  obtain ⟨d', rs', hok', settled⟩ := accounts.settled clock future
  have before := accepted_sublist past rs
  have distinct : ((past.flatMap Turn.submitted).map (·.id)).Nodup := by decide
  have distinct' : ((past.flatMap Turn.submitted ++ future.flatMap Turn.submitted).map
      (·.id)).Nodup := by decide
  refine ⟨first, d, rs, d', rs', started, hok, ?_, hok', ?_⟩
  · exact accounts.accounted (distinct.sublist (before.map _))
  · exact settled (distinct'.sublist ((before.append (accepted_sublist future rs')).map _))

end Desk
end Bourse
