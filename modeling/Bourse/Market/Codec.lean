import Bourse.Json.Codec
import Bourse.Market.Event
import Bourse.Time.Text

/-! Orders, trades, events and order requests as JSON. -/
namespace Bourse

def Side.codec : Codec Side := .word [buy, sell] name

def Status.codec : Codec Status := .word all name

def Price.codec : Codec Price := Codec.decimal.through Price.value fun d => (ofDecimal d).toOption

def OrderId.codec : Codec OrderId := Codec.string.through OrderId.text fun t => some ⟨t⟩

def Instant.codec : Codec Instant := Codec.string.through Instant.text ofText?

def Uuid.codec : Codec Uuid := Codec.string.through Uuid.text ofText?

def Order.codec : Codec Order :=
  .record
    (.cons "id" OrderId.codec <| .cons "side" Side.codec <| .cons "price" Price.codec <|
      .cons "original_quantity" Codec.count <| .cons "quantity" Codec.count <|
      .cons "status" Status.codec <| .cons "sequence_id" Codec.count <|
      .cons "created_at" Instant.codec <| .cons "updated_at" Instant.codec .nil)
    (fun o => (o.id, o.side, o.price, o.size, o.quantity, o.status, o.sequence, o.createdAt,
      o.updatedAt, ()))
    (fun (id, side, price, size, quantity, status, sequence, createdAt, updatedAt, _) =>
      { id, side, price, size, quantity, status, sequence, createdAt, updatedAt })

def Trade.codec : Codec Trade :=
  .record
    (.cons "id" Uuid.codec <| .cons "sequence" Codec.count <|
      .cons "taker_order_id" OrderId.codec <| .cons "maker_order_id" OrderId.codec <|
      .cons "taker_side" Side.codec <| .cons "price" Price.codec <|
      .cons "quantity" Codec.count <| .cons "created_at" Instant.codec .nil)
    (fun t => (t.id, t.sequence, t.taker, t.maker, t.takerSide, t.price, t.quantity, t.createdAt,
      ()))
    (fun (id, sequence, taker, maker, takerSide, price, quantity, createdAt, _) =>
      { id, sequence, taker, maker, takerSide, price, quantity, createdAt })

namespace OrderRequest

def fields (price : Codec Decimal) : Fields (Option String × String × Decimal × Nat × Unit) :=
  .cons "id" (.option Codec.string) <| .cons "side" Codec.string <| .cons "price" price <|
    .cons "quantity" Codec.count .nil

def codecOf (price : Codec Decimal) : Codec OrderRequest :=
  .record (fields price) (fun r => (r.id, r.side, r.price, r.quantity, ()))
    (fun (id, side, price, quantity, _) => { id, side, price, quantity })

/-- The price is written as a text. -/
def codec : Codec OrderRequest := codecOf Codec.decimal

/-- As clients send it: the price is written as a number. -/
def bareCodec : Codec OrderRequest := codecOf Codec.bareDecimal

end OrderRequest

namespace Event

def orderCodec : Codec (Order × Instant) :=
  .record (.cons "order" Order.codec <| .cons "timestamp" Instant.codec .nil)
    (fun (o, t) => (o, t, ())) (fun (o, t, _) => (o, t))

def matchCodec : Codec (Order × Nat × Instant) :=
  .record (.cons "order" Order.codec <| .cons "matched_quantity" Codec.count <|
      .cons "timestamp" Instant.codec .nil)
    (fun (o, q, t) => (o, q, t, ())) (fun (o, q, t, _) => (o, q, t))

def tradeCodec : Codec (Trade × Instant) :=
  .record (.cons "trade" Trade.codec <| .cons "timestamp" Instant.codec .nil)
    (fun (x, t) => (x, t, ())) (fun (x, t, _) => (x, t))

def content : Event → Json
  | added o t | cancelled o t => orderCodec.write (o, t)
  | matched o q t => matchCodec.write (o, q, t)
  | traded x t => tradeCodec.write (x, t)

def ofContent : EventKind → Json → Except ReadError Event
  | .added, j => (orderCodec.read j).map fun (o, t) => added o t
  | .matched, j => (matchCodec.read j).map fun (o, q, t) => matched o q t
  | .cancelled, j => (orderCodec.read j).map fun (o, t) => cancelled o t
  | .traded, j => (tradeCodec.read j).map fun (x, t) => traded x t

def readTagged (ending : Json.Ending) (name : String) (j : Json) (others : List (String × Json)) :
    Except ReadError Event :=
  match EventKind.all.find? (fun k => k.name == name) with
  | none => .error .mismatched
  | some kind =>
    match ofContent kind j with
    | .error e => .error e
    | .ok event => if ending.isClosed && others.isEmpty then .ok event else .error .malformed

/-- An object whose one member is named for the kind of the event. -/
def codec : Codec Event where
  write e := .record [(e.kind.name, e.content)]
  read
    | .object ending ((name, j) :: others) => readTagged ending name j others
    | .string _ => .error .mismatched
    | _ => .error .malformed

end Event
end Bourse
