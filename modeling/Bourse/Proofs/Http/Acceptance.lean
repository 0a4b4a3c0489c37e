import Bourse.Http.Service
import Bourse.Proofs.Desk.Closing
import Bourse.Proofs.Http.Errands
import Bourse.Proofs.Market.PriceOrder

/-! Which requests the service accepts, and what becomes of the others. Whoever is refused leaves
the book, the counters, the ledger and the feed as they were. -/
namespace Bourse

section OrderRequest

open Text

namespace OrderRequest

/-- What a request for an order must be by itself. -/
def Valid (q : OrderRequest) : Prop :=
  upperAscii (trim q.side) ∈ ["BUY", "SELL"] ∧ 0 < q.price.coefficient ∧ 0 < q.quantity

instance (q : OrderRequest) : Decidable q.Valid := inferInstanceAs (Decidable (_ ∧ _ ∧ _))

/-- How much rests on the side and at the price that a request names. -/
def volume (q : OrderRequest) (os : List Order) : Nat :=
  sumOf Order.quantity (os.filter fun o =>
    o.side.name == upperAscii (trim q.side) && o.price.value.compare q.price == .eq)

/-- The status of the response to a request for an order, with these orders resting. An order that
is given no id, or a blank one, is named by the fresh one. -/
def verdict (q : OrderRequest) (fresh : OrderId) (resting : List Order) : Nat :=
  if ¬ q.Valid then 400
  else if resting.any (·.id == q.givenId.getD fresh) then 409
  else if maxCount < q.volume resting + q.quantity then 400
  else 201

variable {q : OrderRequest}

theorem ofText?_eq_some {s : String} {side : Side} :
    Side.ofText? s = some side ↔ side.name = upperAscii (trim s) := by
  unfold Side.ofText?
  dsimp only
  split
  · rename_i buy
    rw [buy]
    cases side <;> simp [Side.name]
  · split
    · rename_i sell
      rw [sell]
      cases side <;> simp [Side.name]
    · cases side <;> simp_all [Side.name, eq_comm]

theorem toOrder_invalid (h : ¬ q.Valid) (fresh : OrderId) (now : Instant) :
    ∃ i, q.toOrder fresh now = .error i := by
  unfold toOrder
  cases named : Side.ofText? q.side with
  | none => exact ⟨_, rfl⟩
  | some side =>
    have known : upperAscii (trim q.side) ∈ ["BUY", "SELL"] := by
      rw [← ofText?_eq_some.mp named]
      cases side <;> simp [Side.name]
    by_cases positive : 0 < q.price.coefficient
    · obtain ⟨p, price, -⟩ := Price.ofDecimal_positive positive
      have nothing : q.quantity = 0 := by
        by_contra some
        exact h ⟨known, positive, Nat.pos_of_ne_zero some⟩
      simp [price, nothing]
    · exact ⟨_, by rw [Price.ofDecimal, dif_neg (mt Decimal.isPositive_iff.mp positive)]⟩

theorem toOrder_valid (h : q.Valid) (fresh : OrderId) (now : Instant) :
    ∃ o : Order, q.toOrder fresh now = .ok o ∧ o.id = q.givenId.getD fresh ∧
      o.quantity = q.quantity ∧
      ∀ os : List Order, restingAt o.price (os.filter (·.side == o.side)) = q.volume os := by
  obtain ⟨known, positive, some⟩ := h
  obtain ⟨side, named⟩ : ∃ side : Side, side.name = upperAscii (trim q.side) := by
    rcases List.mem_pair.mp known with buy | sell
    · exact ⟨.buy, buy.symm⟩
    · exact ⟨.sell, sell.symm⟩
  obtain ⟨p, price, same⟩ := Price.ofDecimal_positive positive
  refine ⟨Order.new (q.givenId.getD fresh) side p q.quantity now, ?_, rfl, rfl, fun os => ?_⟩
  · simp [toOrder, ofText?_eq_some.mpr named, price, Nat.ne_of_gt some]
  · have sides : ∀ s : Side, (s.name == side.name) = (s == side) := by
      intro s
      cases s <;> cases side <;> rfl
    have level : ∀ o : Order, (o.price.value.compare q.price == .eq) = (o.price == p) := by
      intro o
      rw [Bool.eq_iff_iff, beq_iff_eq, beq_iff_eq]
      exact same o.price
    rw [volume, ← named, restingAt, List.filter_filter]
    refine congrArg _ (List.filter_congr fun o _ => ?_)
    rw [sides, level]
    exact Bool.and_comm _ _

end OrderRequest

end OrderRequest

namespace Http

/-- What the response to a request for an order says: its status is the verdict, and if that is
201, as much of the order is filled as the trades shown tell, and the rest of what was asked for
remains. -/
structure Created (q : OrderRequest) (fresh : OrderId) (resting : List Order)
    (response : Response) : Prop where
  status : response.status = q.verdict fresh resting
  filled : response.status = 201 → ∃ x : Execution,
    response = Api.finish .post (.json 201 x.body) ∧
    x.order.filled + x.order.quantity = q.quantity ∧ x.order.filled = sumOf Trade.quantity x.trades

/-- What the response to a cancellation says: the side of the order if it rests, and else that there
is none. -/
def Removed (id : OrderId) (resting : List Order) (response : Response) : Prop :=
  (∃ o ∈ resting, o.id = id ∧ response = Api.finish .delete (.json 200 (.record [
    ("order_id", .string id.text),
    ("status", .string "CANCELLED"),
    ("side", .string o.side.name)]))) ∨
  (∀ o ∈ resting, o.id ≠ id) ∧ response.status = 404

/-- The same book, counters, records and events. -/
def Untouched (d d' : Desk) : Prop :=
  d'.engine = d.engine ∧ d'.store.ledger = d.store.ledger ∧ d'.feed = d.feed

section Errands

variable {d d' : Desk} {c : Command} {m : Moment} {r : Except Rejection Reply} {e : Errand}

theorem Untouched.trans {d'' : Desk} (h : Untouched d d') (h' : Untouched d' d'') :
    Untouched d d'' :=
  ⟨h'.1.trans h.1, h'.2.1.trans h.2.1, h'.2.2.trans h.2.2⟩

/-- Unless an order is taken in or cancelled, a command leaves everything as it was. -/
theorem handle_untouched (h : d.engine.Sound) (hok : d.handle c m = .ok (d', r)) :
    (∃ x, r = .ok (.execution x)) ∨ (∃ o, r = .ok (.cancelled (some o))) ∨ Untouched d d' := by
  have f := d.handled h hok
  have feed := (Desk.handle_feed hok).1
  generalize engine : d'.engine = e', store : d'.store = s' at f
  cases f with
  | accepted => exact .inl ⟨_, rfl⟩
  | cancelled => exact .inr (.inl ⟨_, rfl⟩)
  | rejected => exact .inr (.inr ⟨engine, congrArg Store.ledger store, feed⟩)
  | absent => exact .inr (.inr ⟨engine, congrArg Store.ledger store, feed⟩)
  | best => exact .inr (.inr ⟨engine, congrArg Store.ledger store, feed⟩)
  | found => exact .inr (.inr ⟨engine, congrArg Store.ledger store, feed⟩)
  | depth => exact .inr (.inr ⟨engine, congrArg Store.ledger store, feed⟩)

theorem conclude_untouched (d : Desk) (o : Outcome) : Untouched d (Errand.conclude d o).1 ∧
    (Errand.conclude d o).1.serving = d.serving := by
  cases o with
  | ended => exact ⟨⟨rfl, rfl, rfl⟩, rfl⟩
  | look id => exact ⟨⟨rfl, (getOrder_ledger _ id).1, rfl⟩, rfl⟩

theorem json_of_page {status : Nat} {body : Json} {response : Response}
    (h : (Ending.page status body).toResponse = .ok response) : response = .json status body :=
  (Except.ok.inj h).symm

/-- An errand to a desk that works is done by it, and leaves it at work. -/
theorem Errand.run_working (h : d.engine.Sound) (serving : d.serving = true) {response : Response}
    (hok : e.run d m = .ok (d', response)) : d'.engine.Sound ∧ d'.serving = true ∧
      (400 ≤ response.status → Untouched d d') := by
  cases asks : e.command? with
  | none =>
    cases e with
    | settled =>
      cases hok
      exact ⟨h, serving, fun _ => ⟨rfl, rfl, rfl⟩⟩
    | _ => cases asks
  | some c =>
    obtain ⟨d₁, r, handled, f⟩ := d.handle_spec h c m
    rw [Errand.run_of_handle asks serving handled] at hok
    have after := conclude_untouched d₁ (e.outcome r)
    have serves := (Desk.handle_feed handled).2.trans serving
    cases ends : (Errand.conclude d₁ (e.outcome r)).2.toResponse with
    | error =>
      rw [ends] at hok
      cases hok
    | ok =>
      rw [ends] at hok
      cases hok
      refine ⟨after.1.1 ▸ f.sound h, after.2.trans serves, fun refused => ?_⟩
      rcases handle_untouched h handled with ⟨x, rfl⟩ | ⟨o, rfl⟩ | untouched
      · rw [json_of_page ends] at refused
        exact absurd (show 400 ≤ 201 from refused) (by decide)
      · rw [json_of_page ends] at refused
        exact absurd (show 400 ≤ 200 from refused) (by decide)
      · exact untouched.trans after.1

/-- A new order is taken in unless its id rests or its level is full. Of an order that is taken in
as much has been filled as its trades say. -/
theorem Errand.create_run (h : d.engine.Sound) (serving : d.serving = true) {o : Order}
    (left : 0 < o.quantity) (m : Moment) :
    ∃ d' response, (Errand.create o).run d m = .ok (d', response) ∧
      response.status =
        (if d.engine.book.orders.any (·.id == o.id) then 409
          else if Text.maxCount <
            restingAt o.price (d.engine.book.orders.filter (·.side == o.side)) + o.quantity then 400
          else 201) ∧
      (response.status = 201 → ∃ x : Execution, response = .json 201 x.body ∧
        x.order.filled + x.order.quantity = o.quantity ∧ x.order.filled = x.filled) := by
  obtain ⟨d₁, r, handled, f⟩ := d.handle_spec h (.submit o) m
  rw [Errand.run_of_handle rfl serving handled]
  have level := restingAt_perm (h.book.side_perm o.side) o.price
  have rejection := h.rejection?_eq o
  rw [if_neg (Nat.ne_of_gt left), ← level] at rejection
  generalize d₁.engine = e', d₁.store = s' at f
  cases f with
  | rejected hr =>
    rw [hr] at rejection
    split at rejection
    · rename_i dup
      cases rejection
      refine ⟨_, _, rfl, ?_, ?_⟩
      · rw [if_pos dup]
        rfl
      · intro done
        cases done
    · rename_i fresh
      split at rejection
      · cases rejection
      · rename_i full
        cases rejection
        refine ⟨_, _, rfl, ?_, ?_⟩
        · rw [if_neg fresh, if_pos (Nat.lt_of_not_le full)]
          rfl
        · intro done
          cases done
  | accepted hr accepted hx =>
    rw [hr] at rejection
    have quantity := d.engine.matchOf_quantity o m
    have size := d.engine.matchOf_size o m
    refine ⟨_, _, rfl, ?_, fun _ => ⟨_, rfl, ?_, ?_⟩⟩
    · split at rejection
      · cases rejection
      · rename_i fresh
        split at rejection
        · rename_i room
          rw [if_neg fresh, if_neg (Nat.not_lt.mpr room)]
          rfl
        · cases rejection
    · rw [hx, Order.filled]
      dsimp only
      omega
    · rw [Execution.filled_eq, hx, Order.filled]
      dsimp only
      omega

theorem Errand.cancel_run (h : d.engine.Sound) (serving : d.serving = true) (id : OrderId)
    (m : Moment) :
    ∃ d' response, (Errand.cancel id).run d m = .ok (d', response) ∧
      ((∃ o ∈ d.engine.book.orders, o.id = id ∧ response = .json 200 (.record [
          ("order_id", .string id.text),
          ("status", .string "CANCELLED"),
          ("side", .string o.side.name)])) ∨
        (∀ o ∈ d.engine.book.orders, o.id ≠ id) ∧ response.status = 404) := by
  obtain ⟨d₁, r, handled, f⟩ := d.handle_spec h (.cancel id) m
  rw [Errand.run_of_handle rfl serving handled]
  generalize d₁.engine = e', d₁.store = s' at f
  cases f with
  | @cancelled _ o _ _ here same _ hg =>
    subst hg same
    exact ⟨_, _, rfl, .inl ⟨o, here, rfl, rfl⟩⟩
  | absent absent => exact ⟨_, _, rfl, .inr ⟨absent, rfl⟩⟩

end Errands

namespace Api

variable {a a' : Api} {c : Occasion} {r : Request}

def errand (a : Api) (c : Occasion) (r : Request) : Errand :=
  r.errand a.depthLimit (c.freshId (a.issued + 1)) c.moment.now

/-- Every answer is what an errand ends with, and more headers. -/
theorem run_of_answer {response : Response} (hok : a.answer c r = .ok (a', response)) :
    ∃ plain, (a.errand c r).run a.desk c.moment = .ok (a'.desk, plain) ∧
      response = finish r.method plain := by
  have served := a.serve_eq c r
  unfold Api.answer at hok
  cases hs : a.serve c r with
  | error =>
    rw [hs] at hok
    cases hok
  | ok p =>
    rw [hs] at hok served
    cases hok
    exact ⟨p.2, served.symm, rfl⟩

theorem answer_of_run {d : Desk} {plain : Response}
    (hok : (a.errand c r).run a.desk c.moment = .ok (d, plain)) :
    ∃ a', a.answer c r = .ok (a', finish r.method plain) ∧ a'.desk = d := by
  have served := a.serve_eq c r
  unfold errand at hok
  rw [hok] at served
  unfold Api.answer
  cases hs : a.serve c r with
  | error =>
    rw [hs] at served
    cases served
  | ok p =>
    rw [hs] at served
    cases served
    exact ⟨p.1, rfl, rfl⟩

theorem finish_status (method : Method) (response : Response) :
    (finish method response).status = response.status := by
  unfold finish
  dsimp only
  split <;> rfl

end Api

namespace Service

variable {s s' : Service}

/-- All that can come of a service that starts over some store. -/
inductive Reached : Service → Prop where
  | started {store : Store} {feed : Feed Event} {d : Desk} (issued depthLimit : Nat) :
      Desk.start store feed = .ok d → Reached (.new ⟨d, issued, depthLimit⟩)
  | answered {s s' : Service} {c : Occasion} {r : Request} {response : Response} :
      Reached s → s.answer c r = .ok (s', response) → Reached s'
  | opened {s : Service} : Reached s → Reached s.openSocket.1
  | heard {s : Service} (n : Nat) (said : Incoming) : Reached s → Reached (s.hear n said)

theorem api_of_answer {c : Occasion} {r : Request} {response : Response}
    (hok : s.answer c r = .ok (s', response)) : s.api.answer c r = .ok (s'.api, response) := by
  unfold Service.answer at hok
  cases answered : s.api.answer c r with
  | error =>
    rw [answered] at hok
    cases hok
  | ok =>
    rw [answered] at hok
    cases hok
    rfl

theorem answer_of_run {c : Occasion} {r : Request} {d : Desk} {plain : Response}
    (hok : (s.api.errand c r).run s.api.desk c.moment = .ok (d, plain)) :
    ∃ s', s.answer c r = .ok (s', Api.finish r.method plain) := by
  obtain ⟨a', answered, -⟩ := Api.answer_of_run hok
  exact ⟨_, by rw [Service.answer, answered]; rfl⟩

theorem Reached.working (h : s.Reached) :
    s.api.desk.engine.Sound ∧ s.api.desk.serving = true := by
  induction h with
  | @started store feed d issued depthLimit hok =>
    obtain ⟨d₁, hok₁, working⟩ := Desk.start_sound store feed
    cases hok.symm.trans hok₁
    exact working
  | answered _ hok ih =>
    obtain ⟨plain, run, -⟩ := Api.run_of_answer (api_of_answer hok)
    obtain ⟨sound, serving, -⟩ := Errand.run_working ih.1 ih.2 run
    exact ⟨sound, serving⟩
  | opened _ ih => exact ih
  | @heard s n said _ ih =>
    unfold Service.hear
    split
    · exact ih
    · dsimp only
      split
      · exact ih
      · exact ih

theorem Reached.answer_create (reached : s.Reached) (c : Occasion) {r : Request}
    (path : Route.ofPath? r.path = some .orders) (method : r.method = .post) {q : OrderRequest}
    (asked : r.orderRequest = .ok q) :
    ∃ s' response, s.answer c r = .ok (s', response) ∧
      Created q (c.freshId (s.api.issued + 1)) s.api.desk.engine.book.orders response := by
  obtain ⟨sound, serving⟩ := reached.working
  by_cases valid : q.Valid
  · obtain ⟨o, made, id, quantity, volume⟩ :=
      q.toOrder_valid valid (c.freshId (s.api.issued + 1)) c.moment.now
    have errand : s.api.errand c r = .create o := r.errand_create path method asked made
    have left : 0 < o.quantity := quantity ▸ valid.2.2
    obtain ⟨d, response, run, status, done⟩ := Errand.create_run sound serving left c.moment
    rw [← errand] at run
    obtain ⟨s', answered⟩ := Service.answer_of_run run
    refine ⟨s', _, answered, ?_, fun created => ?_⟩
    · rw [Api.finish_status, status, OrderRequest.verdict, if_neg (not_not.mpr valid), id, quantity,
        volume]
    · rw [Api.finish_status] at created
      obtain ⟨x, rfl, whole, filled⟩ := done created
      exact ⟨x, by rw [method], quantity ▸ whole, filled⟩
  · obtain ⟨i, refused⟩ := q.toOrder_invalid valid (c.freshId (s.api.issued + 1)) c.moment.now
    have errand : s.api.errand c r = .settled (failed (.ofInvalid i)) := by
      simp only [Api.errand, Request.errand, path, method, Route.action?, asked, refused]
    have run : (s.api.errand c r).run s.api.desk c.moment =
        .ok (s.api.desk, failed (.ofInvalid i)) := by
      rw [errand]
      rfl
    obtain ⟨s', answered⟩ := Service.answer_of_run run
    refine ⟨s', _, answered, ?_, fun created => ?_⟩
    · rw [Api.finish_status, OrderRequest.verdict, if_pos valid]
      rfl
    · rw [Api.finish_status] at created
      cases created

theorem Reached.answer_cancel (reached : s.Reached) (c : Occasion) {r : Request}
    {segment : String} {id : OrderId} (path : Route.ofPath? r.path = some (.order segment))
    (method : r.method = .delete) (named : orderId segment = .ok id) :
    ∃ s' response, s.answer c r = .ok (s', response) ∧
      Removed id s.api.desk.engine.book.orders response := by
  obtain ⟨sound, serving⟩ := reached.working
  have errand : s.api.errand c r = .cancel id := (r.errand_order path named).2 method
  obtain ⟨d, response, run, answer⟩ := Errand.cancel_run sound serving id c.moment
  rw [← errand] at run
  obtain ⟨s', answered⟩ := Service.answer_of_run run
  refine ⟨s', _, answered, ?_⟩
  rw [Removed, Api.finish_status, method]
  rcases answer with ⟨o, here, same, rfl⟩ | absent
  · exact .inl ⟨o, here, same, rfl⟩
  · exact .inr absent

end Service

end Http
end Bourse
