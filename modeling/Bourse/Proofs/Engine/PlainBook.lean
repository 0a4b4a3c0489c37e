import Bourse.Proofs.Engine.Runs

/-! A book as one unsorted list, gone through from end to end for every fill, and the proof that the
engine trades as it does. -/
namespace Bourse

/-- A resting order as it concerns trading. `arrival` counts the accepted orders. -/
structure Quote where
  id : OrderId
  side : Side
  price : Price
  quantity : Nat
  arrival : Nat
deriving DecidableEq

structure Deal where
  maker : OrderId
  price : Price
  quantity : Nat
deriving DecidableEq

/-- All that a client hears of an instruction. -/
inductive Response where
  | rejected (r : Rejection)
  | executed (remainder : Nat) (status : Status) (deals : List Deal)
  | cancelled (side : Option Side)
deriving DecidableEq

structure PlainBook where
  resting : List Quote
  accepted : Nat
deriving DecidableEq

namespace Quote

/-- A taker of this side and limit can trade with the quote. -/
def meets (side : Side) (limit : Price) (q : Quote) : Bool :=
  match side with
  | .buy => q.side == .sell && decide (q.price ≤ limit)
  | .sell => q.side == .buy && decide (limit ≤ q.price)

/-- A taker of this side would rather trade with the first. -/
def precedes (side : Side) (a b : Quote) : Bool :=
  match side with
  | .buy => decide (a.price < b.price ∨ a.price = b.price ∧ a.arrival < b.arrival)
  | .sell => decide (b.price < a.price ∨ a.price = b.price ∧ a.arrival < b.arrival)

/-- One look at a quote in search of the best one. -/
def choose (side : Side) (limit : Price) (best : Option Quote) (q : Quote) : Option Quote :=
  if q.meets side limit then
    match best with
    | none => some q
    | some b => if q.precedes side b then some q else some b
  else best

def scan (side : Side) (limit : Price) (qs : List Quote) : Option Quote :=
  qs.foldl (choose side limit) none

theorem mem_of_foldl_choose {side : Side} {limit : Price} {q : Quote} {qs : List Quote}
    {best : Option Quote} (h : qs.foldl (choose side limit) best = some q) :
    q ∈ qs ∨ best = some q := by
  induction qs generalizing best with
  | nil => exact .inr h
  | cons x xs ih =>
    rcases ih h with hq | hq
    · exact .inl (List.mem_cons_of_mem _ hq)
    · unfold choose at hq
      split at hq
      · split at hq
        · cases hq; exact .inl List.mem_cons_self
        · split at hq
          · cases hq; exact .inl List.mem_cons_self
          · exact .inr hq
      · exact .inr hq

theorem mem_of_scan {side : Side} {limit : Price} {q : Quote} {qs : List Quote}
    (h : scan side limit qs = some q) : q ∈ qs :=
  (mem_of_foldl_choose h).resolve_right nofun

end Quote

namespace PlainBook

def empty : PlainBook := ⟨[], 0⟩

/-- The deals of a taker, what remains of it, and the quotes that remain. -/
def trade (side : Side) (limit : Price) (quantity : Nat) (qs : List Quote) :
    List Deal × Nat × List Quote :=
  if quantity = 0 then ([], 0, qs)
  else
    match _found : Quote.scan side limit qs with
    | none => ([], quantity, qs)
    | some q =>
      let traded := min quantity q.quantity
      let others := qs.erase q
      let qs' := if traded = q.quantity then others
        else { q with quantity := q.quantity - traded } :: others
      let (deals, remainder, qs') := trade side limit (quantity - traded) qs'
      (⟨q.id, q.price, traded⟩ :: deals, remainder, qs')
termination_by (qs.length, quantity)
decreasing_by
  have here := Quote.mem_of_scan ‹_›
  have length := List.length_erase_of_mem here
  have some := List.length_pos_of_mem here
  simp only [Prod.lex_def]
  split
  · omega
  · simp only [List.length_cons]
    omega

def volume (b : PlainBook) (side : Side) (price : Price) : Nat :=
  sumOf Quote.quantity (b.resting.filter fun q => q.price == price && q.side == side)

def rejection? (b : PlainBook) (o : Order) : Option Rejection :=
  if o.quantity = 0 then some (.invalid (.quantity o.quantity))
  else if b.resting.any (·.id == o.id) then some (.duplicate o.id)
  else if b.volume o.side o.price + o.quantity ≤ Text.maxCount then none
  else some (.overflow o.id o.price)

def submit (b : PlainBook) (o : Order) : PlainBook × Response :=
  match b.rejection? o with
  | some r => (b, .rejected r)
  | none =>
    let arrival := b.accepted + 1
    let (deals, remainder, resting) := trade o.side o.price o.quantity b.resting
    if remainder = 0 then (⟨resting, arrival⟩, .executed 0 .filled deals)
    else
      (⟨⟨o.id, o.side, o.price, remainder, arrival⟩ :: resting, arrival⟩,
        .executed remainder (if remainder < o.quantity then .partlyFilled else .opened) deals)

def cancel (b : PlainBook) (id : OrderId) : PlainBook × Response :=
  match b.resting.find? (·.id == id) with
  | none => (b, .cancelled none)
  | some q => ({ b with resting := b.resting.erase q }, .cancelled (some q.side))

def instruct (b : PlainBook) : Instruction → PlainBook × Response
  | .submit o _ => b.submit o
  | .cancel id _ => b.cancel id

def run (b : PlainBook) : List Instruction → PlainBook × List Response
  | [] => (b, [])
  | i :: is =>
    let (b, response) := b.instruct i
    let (b, responses) := b.run is
    (b, response :: responses)

end PlainBook

namespace Quote

variable {side : Side} {limit : Price} {q : Quote} {qs : List Quote} {best : Option Quote}

theorem foldl_choose_none (h : ∀ x ∈ qs, x.meets side limit = false) :
    qs.foldl (choose side limit) best = best := by
  induction qs with
  | nil => rfl
  | cons x xs ih =>
    have skip : choose side limit best x = best := by simp [choose, h x List.mem_cons_self]
    rw [List.foldl_cons, skip]
    exact ih fun y hy => h y (List.mem_cons_of_mem _ hy)

/-- Once the best quote is found it stays, and until then whatever is held gives way to it. -/
theorem foldl_choose_some (meets : q.meets side limit = true) (self : q.precedes side q = false)
    (first : ∀ x ∈ qs, x = q ∨ x.meets side limit = false ∨
      q.precedes side x = true ∧ x.precedes side q = false)
    (held : best = some q ∨ q ∈ qs ∧ ∀ b ∈ best, q.precedes side b = true) :
    qs.foldl (choose side limit) best = some q := by
  induction qs generalizing best with
  | nil => exact held.resolve_right fun h => by cases h.1
  | cons x xs ih =>
    rw [List.foldl_cons]
    apply ih (fun y hy => first y (List.mem_cons_of_mem _ hy))
    have look := first x List.mem_cons_self
    rcases held with rfl | ⟨here, worse⟩
    · left
      rcases look with rfl | apart | ⟨-, behind⟩
      · simp [choose, self]
      · simp [choose, apart]
      · simp [choose, behind]
    · by_cases same : x = q
      · subst same
        left
        cases best with
        | none => simp [choose, meets]
        | some b => simp [choose, meets, worse b rfl]
      · right
        refine ⟨(List.mem_cons.mp here).resolve_left fun h => same h.symm, fun b hb => ?_⟩
        rcases look.resolve_left same with apart | ⟨ahead, -⟩
        · exact worse b (by simpa [choose, apart] using hb)
        · unfold choose at hb
          split at hb
          · split at hb
            · cases hb; exact ahead
            · split at hb
              · cases hb; exact ahead
              · cases hb; exact worse _ rfl
          · exact worse b hb

end Quote

/-- What a plain book keeps of an order. -/
def Order.quote (o : Order) : Quote := ⟨o.id, o.side, o.price, o.quantity, o.sequence⟩

def Fill.deal (f : Fill) : Deal := ⟨f.trade.maker, f.trade.price, f.trade.quantity⟩

def Outcome.response : Outcome → Response
  | .submitted (.error r) => .rejected r
  | .submitted (.ok x) => .executed x.order.quantity x.order.status (x.fills.map Fill.deal)
  | .cancelled o => .cancelled (o.map (·.side))
  | .restored _ | .resumed => .cancelled none

theorem Order.quote_meets (side : Side) (limit : Price) (o : Order) :
    o.quote.meets side limit = (o.side == side.opposite && side.crosses limit o.price) := by
  cases side <;> rfl

theorem Order.quote_precedes {side : Side} {a b : Order} :
    a.quote.precedes side b.quote = true ↔ a.ahead side.opposite b := by
  unfold ahead
  cases side with
  | buy =>
    exact decide_eq_true_iff.trans (or_congr_left decide_eq_true_iff.symm)
  | sell =>
    exact decide_eq_true_iff.trans (or_congr_left decide_eq_true_iff.symm)

namespace Quote

variable {side : Side} {limit : Price} {qs : List Quote} {own queue : List Order} {o : Order}

theorem scan_none (perm : qs.Perm ((own ++ queue).map Order.quote))
    (mine : ∀ x ∈ own, x.side = side)
    (apart : ∀ x ∈ queue, side.crosses limit x.price = false) : scan side limit qs = none := by
  apply foldl_choose_none
  intro q hq
  obtain ⟨x, hx, rfl⟩ := List.mem_map.mp (perm.mem_iff.mp hq)
  rw [Order.quote_meets]
  rcases List.mem_append.mp hx with hx | hx
  · rw [mine x hx, beq_false_of_ne (Side.opposite_ne side).symm, Bool.false_and]
  · rw [apart x hx, Bool.and_false]

/-- The scan finds the head of the queue, wherever it stands in the list. -/
theorem scan_some (perm : qs.Perm ((own ++ o :: queue).map Order.quote))
    (mine : ∀ x ∈ own, x.side = side) (other : o.side = side.opposite)
    (inTurn : (o :: queue).Pairwise (Order.ahead side.opposite))
    (crosses : side.crosses limit o.price = true) : scan side limit qs = some o.quote := by
  have ahead := (List.pairwise_cons.mp inTurn).1
  refine foldl_choose_some ?_ ?_ ?_ (.inr ⟨?_, fun b hb => by cases hb⟩)
  · rw [Order.quote_meets, other, crosses, beq_self_eq_true, Bool.and_self]
  · rw [Bool.eq_false_iff, Ne, Order.quote_precedes]
    exact Order.ahead_irrefl _ _
  · intro q hq
    obtain ⟨x, hx, rfl⟩ := List.mem_map.mp (perm.mem_iff.mp hq)
    rcases List.mem_append.mp hx with hx | hx
    · right; left
      rw [Order.quote_meets, mine x hx, beq_false_of_ne (Side.opposite_ne side).symm,
        Bool.false_and]
    · rcases List.mem_cons.mp hx with rfl | hx
      · exact .inl rfl
      · right; right
        rw [Bool.eq_false_iff, Ne, Order.quote_precedes, Order.quote_precedes]
        exact ⟨ahead x hx, Order.ahead_asymm (ahead x hx)⟩
  · exact perm.mem_iff.mpr (List.mem_map_of_mem (by simp))

end Quote

namespace PlainBook

section Trade

variable {side : Side} {limit : Price} {quantity : Nat} {qs : List Quote} {q : Quote}

theorem trade_spent (side : Side) (limit : Price) (qs : List Quote) :
    trade side limit 0 qs = ([], 0, qs) := by
  rw [trade, if_pos rfl]

theorem trade_stop (left : quantity ≠ 0) (none : Quote.scan side limit qs = none) :
    trade side limit quantity qs = ([], quantity, qs) := by
  rw [trade, if_neg left]
  split
  · rfl
  · rename_i found
    rw [none] at found
    cases found

theorem trade_step (left : quantity ≠ 0) (found : Quote.scan side limit qs = some q) :
    trade side limit quantity qs =
      let traded := min quantity q.quantity
      let r := trade side limit (quantity - traded)
        (if traded = q.quantity then qs.erase q
          else { q with quantity := q.quantity - traded } :: qs.erase q)
      (⟨q.id, q.price, traded⟩ :: r.1, r.2.1, r.2.2) := by
  rw [trade, if_neg left]
  split
  · rename_i none
    rw [found] at none
    cases none
  · rename_i q' found'
    rw [found] at found'
    cases found'
    rfl

end Trade

/-- Trading by scans of the list is the walk along the queue. -/
theorem trade_eq {own queue : List Order} {t : Order} {qs : List Quote}
    (perm : qs.Perm ((own ++ queue).map Order.quote)) (mine : ∀ x ∈ own, x.side = t.side)
    (others : ∀ x ∈ queue, x.side = t.side.opposite)
    (inTurn : queue.Pairwise (Order.ahead t.side.opposite)) (m : Moment) (n : Nat) :
    let r := matchQueue m n t queue
    ∃ qs', trade t.side t.price t.quantity qs = (r.fills.map Fill.deal, r.taker.quantity, qs') ∧
      qs'.Perm ((own ++ r.rest).map Order.quote) := by
  induction queue generalizing t qs n with
  | nil =>
    refine ⟨qs, ?_, perm⟩
    by_cases left : t.quantity = 0
    · rw [left, trade_spent]
      simp [matchQueue, left]
    · rw [trade_stop left (Quote.scan_none perm mine (by simp))]
      rfl
  | cons o os ih =>
    have ahead := (List.pairwise_cons.mp inTurn).1
    by_cases left : t.quantity = 0
    · rw [matchQueue_spent left, left, trade_spent]
      exact ⟨qs, by simp [left], perm⟩
    cases crosses : t.side.crosses t.price o.price with
    | false =>
      rw [matchQueue_apart crosses]
      have apart : ∀ x ∈ o :: os, t.side.crosses t.price x.price = false := by
        intro x hx
        rcases List.mem_cons.mp hx with rfl | hx
        · exact crosses
        · exact Order.apart_of_ahead (ahead x hx) crosses
      exact ⟨qs, trade_stop left (Quote.scan_none perm mine apart), perm⟩
    | true =>
      have found := Quote.scan_some perm mine (others o List.mem_cons_self) inTurn crosses
      have erased : (qs.erase o.quote).Perm ((own ++ os).map Order.quote) := by
        have front := perm.trans (List.perm_middle.map Order.quote)
        simpa using front.erase o.quote
      have quantity : o.quote.quantity = o.quantity := rfl
      simp only [matchQueue, left, crosses, Bool.true_eq_false, or_self, if_false]
      rw [trade_step left found]
      simp only [quantity]
      by_cases spent : o.quantity ≤ t.quantity
      · obtain ⟨qs', traded, perm'⟩ := ih erased mine
          (fun x hx => others x (List.mem_cons_of_mem _ hx)) (List.pairwise_cons.mp inTurn).2
          (t := t.afterTaking (min t.quantity o.quantity) m.now) (n + 1)
        simp only [Order.afterTaking] at traded
        rw [if_pos spent, if_pos (Nat.min_eq_right spent), traded]
        exact ⟨qs', rfl, perm'⟩
      · have all : min t.quantity o.quantity = t.quantity := by omega
        rw [if_neg spent, if_neg (by omega), all, Nat.sub_self, trade_spent]
        refine ⟨_, ?_, (erased.cons _).trans (List.perm_middle.map Order.quote).symm⟩
        simp [fillOf, Fill.deal, Order.quote, Order.afterFill, Order.afterTaking, all]

/-- The book keeps the same orders as the engine, and has accepted as many. -/
structure Mirrors (b : PlainBook) (e : Engine) : Prop where
  resting : b.resting.Perm (e.book.orders.map Order.quote)
  accepted : b.accepted + 1 = e.nextSequence

variable {b : PlainBook} {e : Engine} {o : Order}

theorem Mirrors.any_id (h : b.Mirrors e) (id : OrderId) :
    b.resting.any (·.id == id) = e.book.orders.any (·.id == id) := by
  rw [h.resting.any_eq, List.any_map]
  rfl

theorem Mirrors.volume (h : b.Mirrors e) (sound : e.Sound) (side : Side) (price : Price) :
    b.volume side price = restingAt price (e.book.ladder side).orders := by
  rw [PlainBook.volume, sumOf_perm _ (h.resting.filter _), List.filter_map, sumOf_map, restingAt,
    sumOf_perm _ ((sound.book.side_perm side).symm.filter _), List.filter_filter]
  rfl

theorem Mirrors.rejection? (h : b.Mirrors e) (sound : e.Sound) (o : Order) :
    b.rejection? o = e.rejection? o := by
  rw [sound.rejection?_eq, PlainBook.rejection?, h.any_id, h.volume sound]

theorem Mirrors.submit (h : b.Mirrors e) (sound : e.Sound) {m : Moment} {e' : Engine}
    (accepted : e.rejection? o = none) (a : Engine.Accepted e o (e.matchOf o m) e') :
    ∃ b', b.submit o = (b', (Outcome.submitted
        (.ok ⟨(e.matchOf o m).taker.settled, (e.matchOf o m).fills⟩)).response) ∧
      b'.Mirrors e' := by
  have sides := h.resting.trans ((Book.orders_perm e.book o.side).map Order.quote)
  have opposite := sound.book.ladders o.side.opposite
  obtain ⟨quotes, traded, perm⟩ := trade_eq (t := e.takerOf o) sides
    (fun x hx => sound.book.own hx) (fun x hx => sound.book.own hx) opposite.pairwise m e.nextTrade
  change trade o.side o.price o.quantity b.resting =
    ((e.matchOf o m).fills.map Fill.deal, (e.matchOf o m).taker.quantity, quotes) at traded
  obtain ⟨quantity, updatedAt, -, taker⟩ := e.matchOf_taker o m
  have resting : ((e.matchOf o m).taker.settled.resting.map Order.quote ++ quotes).Perm
      (e'.book.orders.map Order.quote) := by
    refine .trans ?_ ((Book.orders_perm e'.book o.side).map Order.quote).symm
    rw [a.queue, List.map_append]
    refine .trans ?_ ((a.own.map Order.quote).append_right _).symm
    rw [List.map_append, List.append_assoc, ← List.map_append]
    exact perm.append_left _
  have counted : b.accepted + 1 + 1 = e'.nextSequence := by rw [h.accepted, a.nextSequence]
  refine ⟨⟨(e.matchOf o m).taker.settled.resting.map Order.quote ++ quotes, b.accepted + 1⟩, ?_,
    resting, counted⟩
  rw [PlainBook.submit, h.rejection? sound, accepted]
  simp only [traded]
  by_cases spent : (e.matchOf o m).taker.quantity = 0
  · simp [Outcome.response, Order.settled, Order.resting, spent]
  · rw [taker] at spent ⊢
    simp only at spent
    simp [Outcome.response, Order.settled, Order.resting, spent, Engine.takerOf, Order.quote,
      h.accepted, Order.liveStatus]
    rfl

theorem Mirrors.cancel (h : b.Mirrors e) (sound : e.Sound) {e' : Engine} (here : o ∈ e.book.orders)
    (c : Engine.Cancelled e o e') :
    ∃ b', b.cancel o.id = (b', .cancelled (some o.side)) ∧ b'.Mirrors e' := by
  have ids : (b.resting.map (·.id)).Nodup := by
    rw [(h.resting.map _).nodup_iff, List.map_map]
    exact sound.book.ids
  have mine : o.quote ∈ b.resting := h.resting.mem_iff.mpr (List.mem_map_of_mem here)
  have found : b.resting.find? (·.id == o.id) = some o.quote := find_key_of_mem ids mine
  refine ⟨{ b with resting := b.resting.erase o.quote }, by simp [PlainBook.cancel, found]; rfl, ?_,
    h.accepted.trans c.nextSequence.symm⟩
  have front := (h.resting.trans (c.orders.map Order.quote)).erase o.quote
  simpa using front

theorem Mirrors.cancel_none (h : b.Mirrors e) {id : OrderId}
    (absent : ∀ x ∈ e.book.orders, x.id ≠ id) : b.cancel id = (b, .cancelled none) := by
  have none : b.resting.find? (·.id == id) = none := by
    refine List.find?_eq_none.mpr fun q hq => ?_
    obtain ⟨x, hx, rfl⟩ := List.mem_map.mp (h.resting.mem_iff.mp hq)
    simpa [Order.quote] using absent x hx
  simp [PlainBook.cancel, none]

theorem Mirrors.instruct (h : b.Mirrors e) (sound : e.Sound) {i : Instruction} {out : Outcome}
    {e' : Engine} (f : Engine.Effect e (.instruct i) out e') :
    ∃ b', b.instruct i = (b', out.response) ∧ b'.Mirrors e' := by
  cases f with
  | @rejected o m r rejected =>
    exact ⟨b, by simp [PlainBook.instruct, PlainBook.submit, h.rejection? sound, rejected,
      Outcome.response], h⟩
  | accepted accepted a => exact h.submit sound accepted a
  | cancelled here c => exact h.cancel sound here c
  | absent absent => exact ⟨b, h.cancel_none absent, h⟩

theorem Mirrors.run {is : List Instruction} {outs : List Outcome} {e' : Engine} (h : b.Mirrors e)
    (sound : e.Sound) (r : Engine.Ran e (is.map .instruct) outs e') :
    ∃ b', b.run is = (b', outs.map Outcome.response) ∧ b'.Mirrors e' := by
  induction is generalizing b e outs with
  | nil => cases r; exact ⟨b, rfl, h⟩
  | cons i is ih =>
    cases r with
    | cons f more =>
      obtain ⟨b₁, first, h₁⟩ := h.instruct sound f
      obtain ⟨b₂, others, h₂⟩ := ih h₁ (f.advances sound).sound more
      exact ⟨b₂, by simp [PlainBook.run, first, others], h₂⟩

end PlainBook

/-- Submissions and cancellations of any kind and number, from the start: the client hears from the
engine what the plain book would have answered, and the same orders rest with as much left of each.
The price levels, the queues, the totals and the index cannot be seen from outside. -/
theorem Engine.run_eq_plain (is : List Instruction) :
    ∃ e outs, Engine.new.run (is.map .instruct) = .ok (e, outs) ∧
      outs.map Outcome.response = (PlainBook.empty.run is).2 ∧
      (e.book.orders.map Order.quote).Perm (PlainBook.empty.run is).1.resting := by
  obtain ⟨e, outs, hok, ran⟩ := Engine.sound_new.run (is.map .instruct)
  have start : PlainBook.empty.Mirrors Engine.new := ⟨.nil, rfl⟩
  obtain ⟨b, plain, mirrors⟩ := start.run Engine.sound_new ran
  refine ⟨e, outs, hok, ?_, ?_⟩
  · rw [plain]
  · rw [plain]
    exact mirrors.resting.symm

end Bourse
