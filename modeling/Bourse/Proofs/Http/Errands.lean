import Bourse.Http.Api
import Bourse.Proofs.Desk.Events

/-! What a request comes to once it has been read: a response there and then, or a command to the
desk and a response that depends on its reply. Only an order that does not rest has to be looked
for in the store as well. -/
namespace Bourse.Http

/-- What is to be done for a request that has been read. -/
inductive Errand where
  | settled (response : Response)
  | create (o : Order)
  | inquire (id : OrderId)
  | cancel (id : OrderId)
  | depth (limit : Nat)

/-- How an errand ends for who sent it. -/
inductive Ending where
  | response (r : Response)
  | page (status : Nat) (body : Json)
  | broken (f : Fault)

/-- What the reply of the desk comes to. An order that does not rest is looked for in the store. -/
inductive Outcome where
  | ended (e : Ending)
  | look (id : OrderId)

namespace Ending

def failed (f : Failure) : Ending := .page f.status f.body

def ofRecorded (id : OrderId) : Except StoreError (Option Order) → Ending
  | .ok (some o) => .page 200 o.body
  | .ok none => .failed (.ofRejection (.notFound id))
  | .error e => .failed (.ofStoreError e)

def ofDepth (d : Depth) : Ending :=
  match d.body with
  | .ok body => .page 200 body
  | .error o => .broken (.overflow o)

def toResponse : Ending → Except Fault Response
  | response r => .ok r
  | page status body => .ok (.json status body)
  | broken f => .error f

end Ending

namespace Errand

def command? : Errand → Option Command
  | settled _ => none
  | create o => some (.submit o)
  | inquire id => some (.find id)
  | cancel id => some (.cancel id)
  | depth limit => some (.depth limit)

/-- The order that an errand is about. -/
def about? : Errand → Option OrderId
  | create o => some o.id
  | inquire id | cancel id => some id
  | settled _ | depth _ => none

/-- Only an errand about an order is told that there is none. -/
def outcome (e : Errand) : Except Rejection Reply → Outcome
  | .error r => .ended (.failed (.ofRejection r))
  | .ok (.execution x) => .ended (.page 201 x.body)
  | .ok (.cancelled (some o)) => .ended (.page 200 o.cancelBody)
  | .ok (.cancelled none) => .ended (.failed (.ofRejection (.notFound (e.about?.getD default))))
  | .ok (.order (some o)) => .ended (.page 200 o.body)
  | .ok (.order none) => .look (e.about?.getD default)
  | .ok (.depth d) => .ended (.ofDepth d)

/-- What the outcome comes to if nobody else is served in between. -/
def conclude (d : Desk) : Outcome → Desk × Ending
  | .ended e => (d, e)
  | .look id =>
    let (store, recorded) := d.store.getOrder id
    ({ d with store }, .ofRecorded id recorded)

def run (e : Errand) (d : Desk) (m : Moment) : Except Fault (Desk × Response) :=
  match e with
  | settled response => .ok (d, response)
  | create o => serve (.submit o)
  | inquire id => serve (.find id)
  | cancel id => serve (.cancel id)
  | depth limit => serve (.depth limit)
where
  serve (c : Command) : Except Fault (Desk × Response) := do
    let (d, r) ← d.ask c m
    let (d, ending) := conclude d (e.outcome r)
    return (d, ← ending.toResponse)

end Errand

/-- An order that does not name itself is given the fresh id. -/
def Request.errand (r : Request) (depthLimit : Nat) (fresh : OrderId) (now : Instant) : Errand :=
  match Route.ofPath? r.path with
  | none => .settled (Api.noRoute r)
  | some route =>
    match route.action? r.method with
    | none => .settled (Api.noAction r route)
    | some .health => .settled (.json 200 (.record [("status", .string "ok")]))
    | some .createOrder =>
      match r.orderRequest with
      | .error f => .settled (failed f)
      | .ok q =>
        match q.toOrder fresh now with
        | .error i => .settled (failed (.ofInvalid i))
        | .ok o => .create o
    | some (.showOrder segment) =>
      match orderId segment with
      | .ok id => .inquire id
      | .error response => .settled response
    | some (.cancelOrder segment) =>
      match orderId segment with
      | .ok id => .cancel id
      | .error response => .settled response
    | some .showDepth =>
      match r.depthLimit? with
      | .error f => .settled (failed f)
      | .ok n => .depth (max (n.getD depthLimit) 1)
    | some .openSocket => .settled r.handshakeFault.response

namespace Request

variable {r : Request} {depthLimit : Nat} {fresh : OrderId} {now : Instant}

theorem errand_create (path : Route.ofPath? r.path = some .orders) (method : r.method = .post)
    {q : OrderRequest} (asked : r.orderRequest = .ok q) {o : Order}
    (made : q.toOrder fresh now = .ok o) : r.errand depthLimit fresh now = .create o := by
  simp only [errand, path, method, Route.action?, asked, made]

theorem errand_order {segment : String} {id : OrderId}
    (path : Route.ofPath? r.path = some (.order segment)) (named : orderId segment = .ok id) :
    (r.method = .get → r.errand depthLimit fresh now = .inquire id) ∧
      (r.method = .delete → r.errand depthLimit fresh now = .cancel id) := by
  constructor
  · intro method
    simp only [errand, path, method, Route.action?, named]
  · intro method
    simp only [errand, path, method, Route.action?, named]

end Request

/-- An errand to a desk that serves ends as the reply says. -/
theorem Errand.run_of_handle {e : Errand} {c : Command} {d d' : Desk} {m : Moment}
    {r : Except Rejection Reply} (asks : e.command? = some c) (serving : d.serving = true)
    (handled : d.handle c m = .ok (d', r)) :
    e.run d m = (conclude d' (e.outcome r)).2.toResponse.map
      fun response => ((conclude d' (e.outcome r)).1, response) := by
  have asked : d.ask c m = .ok (d', r) := by rw [Desk.ask, Desk.call, if_pos serving, handled]
  cases e with
  | settled => cases asks
  | _ =>
    cases asks
    rw [run, run.serve, asked]
    rfl

theorem getOrder_ledger (s : Store) (id : OrderId) :
    (s.getOrder id).1.ledger = s.ledger ∧ (s.getOrder id).1.outage = s.outage := by
  unfold Store.getOrder Store.call
  dsimp only
  cases s.outage .getOrder s.calls <;> exact ⟨rfl, rfl⟩

theorem ask_eq {α : Type} {d : Desk} {c : Command} {m : Moment} {reply : α → Reply}
    {work : Desk → Except Fault (Desk × Except Rejection α)}
    (h : ∀ d : Desk, d.handle c m = Desk.replying reply (work d)) :
    d.ask c m = Desk.replying reply (d.call work) := by
  unfold Desk.ask Desk.call
  split
  · exact h d
  · rfl

/-- A request is served by running its errand. -/
theorem Api.serve_eq (a : Api) (c : Occasion) (r : Request) :
    (a.serve c r).map (fun p => (p.1.desk, p.2)) =
      (r.errand a.depthLimit (c.freshId (a.issued + 1)) c.moment.now).run a.desk c.moment := by
  unfold Api.serve Request.errand
  cases Route.ofPath? r.path with
  | none => rfl
  | some route =>
    dsimp only
    cases route.action? r.method with
    | none => rfl
    | some action =>
      cases action with
      | health => rfl
      | openSocket => rfl
      | createOrder =>
        simp only [Api.act, Api.createOrder]
        cases r.orderRequest with
        | error f => rfl
        | ok q =>
          dsimp only
          cases q.toOrder (c.freshId (a.issued + 1)) c.moment.now with
          | error i => rfl
          | ok o =>
            dsimp only [Errand.run, Errand.run.serve]
            rw [ask_eq (c := .submit o) fun _ => rfl]
            rcases a.desk.call fun d => d.submit o c.moment with f | ⟨d, e | x⟩ <;> rfl
      | showOrder segment =>
        simp only [Api.act]
        cases orderId segment with
        | error response => rfl
        | ok id =>
          dsimp only [Errand.run, Errand.run.serve, Api.showOrder]
          rw [ask_eq (c := .find id) fun _ => rfl]
          rcases a.desk.call fun d => d.find id with f | ⟨d, e | _ | o⟩
          · rfl
          · rfl
          · simp only [ok_bind, Desk.replying, Except.map, Errand.outcome, Errand.conclude,
              Errand.about?, Option.getD_some, Api.showRecorded]
            rcases d.store.getOrder id with ⟨s, e | _ | o⟩ <;> rfl
          · rfl
      | cancelOrder segment =>
        simp only [Api.act]
        cases orderId segment with
        | error response => rfl
        | ok id =>
          dsimp only [Errand.run, Errand.run.serve, Api.cancelOrder]
          rw [ask_eq (c := .cancel id) fun _ => rfl]
          rcases a.desk.call fun d => d.cancel id c.moment with f | ⟨d, e | _ | o⟩ <;> rfl
      | showDepth =>
        simp only [Api.act, Api.showDepth]
        cases r.depthLimit? with
        | error f => rfl
        | ok n =>
          dsimp only [Errand.run, Errand.run.serve]
          rw [ask_eq (c := .depth (max (n.getD a.depthLimit) 1)) fun _ => rfl]
          rcases a.desk.call fun d => d.depth _ c.moment.now with f | ⟨d, e | depth⟩
          · rfl
          · rfl
          · simp only [ok_bind, Desk.replying, Except.map, Errand.outcome, Errand.conclude,
              Ending.ofDepth]
            cases depth.body <;> rfl

end Bourse.Http
