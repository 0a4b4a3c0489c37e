import Bourse.Desk.Basic
import Bourse.Http.Failure
import Bourse.Http.Handshake
import Bourse.Http.Query
import Bourse.Http.Route
import Bourse.Http.Socket

/-! What the service does for a request: each is answered by the desk, and an order that no longer
rests by the store. -/
namespace Bourse.Http

/-- The desk, and two numbers: `issued` counts the ids given to orders that had none, and
`depthLimit` is how many levels are shown to whoever names no number. -/
structure Api where
  desk : Desk
  issued : Nat
  depthLimit : Nat

/-- The clock and the ids at hand while a request is answered. -/
structure Occasion where
  moment : Moment
  freshId : Nat → OrderId

def failed (f : Failure) : Response := .json f.status f.body

def rejected (r : Rejection) : Response := failed (.ofRejection r)

/-- Two mebibytes. -/
def bodyLimit : Nat := 2097152

namespace Request

def orderRequest (r : Request) : Except Failure OrderRequest :=
  if !r.isJson then .error (.badRequest "Expected request with `Content-Type: application/json`")
  else if r.body.length > bodyLimit then .error (.badRequest "Failed to buffer the request body")
  else match OrderRequest.bareCodec.readText r.bodyText with
    | .ok q => .ok q
    | .error .malformed => .error (.badRequest "Failed to parse the request body as JSON")
    | .error .mismatched =>
      .error (.badRequest "Failed to deserialize the JSON body into the target type")

def depthLimit? (r : Request) : Except Failure (Option Nat) :=
  match countParameter "depth".toList r.query with
  | .ok n => .ok n
  | .error _ => .error (.badRequest "Failed to deserialize query string")

end Request

def orderId (segment : String) : Except Response OrderId :=
  match Text.text? (percentDecode segment.toList) with
  | some t => .ok ⟨t⟩
  | none => .error (.plain 400 "Invalid URL: Invalid UTF-8 in `id`")

namespace Api

/-- The counter moves once an order without an id has passed the checks. -/
def createOrder (a : Api) (c : Occasion) (r : Request) : Except Fault (Api × Response) :=
  match r.orderRequest with
  | .error f => .ok (a, failed f)
  | .ok q =>
    match q.toOrder (c.freshId (a.issued + 1)) c.moment.now with
    | .error i => .ok (a, failed (.ofInvalid i))
    | .ok o => do
      let issued := if q.givenId.isSome then a.issued else a.issued + 1
      let (desk, result) ← a.desk.call fun d => d.submit o c.moment
      match result with
      | .ok x => return ({ a with desk, issued }, .json 201 x.body)
      | .error r => return ({ a with desk, issued }, rejected r)

def cancelOrder (a : Api) (c : Occasion) (id : OrderId) : Except Fault (Api × Response) := do
  let (desk, result) ← a.desk.call fun d => d.cancel id c.moment
  match result with
  | .ok (some o) => return ({ a with desk }, .json 200 o.cancelBody)
  | .ok none => return ({ a with desk }, rejected (.notFound id))
  | .error r => return ({ a with desk }, rejected r)

def showRecorded (a : Api) (id : OrderId) : Api × Response :=
  let (store, recorded) := a.desk.store.getOrder id
  let a := { a with desk := { a.desk with store } }
  match recorded with
  | .ok (some o) => (a, .json 200 o.body)
  | .ok none => (a, rejected (.notFound id))
  | .error e => (a, failed (.ofStoreError e))

/-- An order as it rests. One that does not rest may have been recorded. -/
def showOrder (a : Api) (id : OrderId) : Except Fault (Api × Response) := do
  let (desk, found) ← a.desk.call fun d => d.find id
  let a := { a with desk }
  match found with
  | .ok (some o) => return (a, .json 200 o.body)
  | .ok none => return a.showRecorded id
  | .error r => return (a, rejected r)

/-- One level is shown at least. -/
def showDepth (a : Api) (c : Occasion) (r : Request) : Except Fault (Api × Response) :=
  match r.depthLimit? with
  | .error f => .ok (a, failed f)
  | .ok n => do
    let (desk, result) ← a.desk.call fun d => d.depth (max (n.getD a.depthLimit) 1) c.moment.now
    let a := { a with desk }
    match result with
    | .error r => return (a, rejected r)
    | .ok d =>
      match d.body with
      | .ok body => return (a, .json 200 body)
      | .error o => .error (.overflow o)

def act (a : Api) (c : Occasion) (r : Request) (action : Action) : Except Fault (Api × Response) :=
  match action with
  | .health => .ok (a, .json 200 (.record [("status", .string "ok")]))
  | .createOrder => a.createOrder c r
  | .showOrder segment =>
    match orderId segment with
    | .ok id => a.showOrder id
    | .error response => .ok (a, response)
  | .cancelOrder segment =>
    match orderId segment with
    | .ok id => a.cancelOrder c id
    | .error response => .ok (a, response)
  | .showDepth => a.showDepth c r
  | .openSocket => .ok (a, r.handshakeFault.response)

/-- Pages of every origin may ask for anything the service does. -/
def leave : Response :=
  let methods := ("access-control-allow-methods", "GET,POST,DELETE,OPTIONS")
  let headers := ("access-control-allow-headers", "content-type,accept")
  ⟨200, [methods, headers], ""⟩

def noAction (r : Request) (route : Route) : Response :=
  (if r.method = .options then leave else .bare 405).withHeader "allow" route.allowed

def noRoute (r : Request) : Response := if r.method = .options then leave else .bare 404

/-- Without what goes into every response. -/
def serve (a : Api) (c : Occasion) (r : Request) : Except Fault (Api × Response) :=
  match Route.ofPath? r.path with
  | none => .ok (a, noRoute r)
  | some route =>
    match route.action? r.method with
    | none => .ok (a, noAction r route)
    | some action => a.act c r action

def vary : String := "origin, access-control-request-method, access-control-request-headers"

/-- What goes into every response. The head of a response is as long as the whole. -/
def finish (method : Method) (response : Response) : Response :=
  let response :=
    ((response.withHeader "access-control-allow-origin" "*").withHeader "vary" vary).measured
  if method = .head then response.withoutBody else response

def answer (a : Api) (c : Occasion) (r : Request) : Except Fault (Api × Response) :=
  (a.serve c r).map fun (a, response) => (a, finish r.method response)

def openSocket (a : Api) : Api × Socket :=
  let (feed, reader) := a.desk.feed.subscribeTrades
  ({ a with desk := { a.desk with feed } }, .new reader)

def closeSocket (a : Api) : Api :=
  { a with desk := { a.desk with feed := a.desk.feed.unsubscribe } }

end Api
end Bourse.Http
