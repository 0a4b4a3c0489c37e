import Bourse.Book.Depth
import Bourse.Market.Codec
import Bourse.Proofs.Json.Codecs
import Bourse.Proofs.Time.Text
import Bourse.Proofs.Uuid

/-! Orders, trades, events, depths and order requests are read back as they were written. Counts
have to be within sixty-four bits, and times within the years of four digits. -/
namespace Bourse

open Bourse.Text

/-- Every value that fits is written on one line, from which one is read that is the same. -/
structure Codec.Faithful {α : Type} (c : Codec α) (fits : α → Prop) (same : α → α → Prop) :
    Prop where
  back : ∀ a, fits a → ∃ b, c.decode? (c.encode a) = some b ∧ same a b
  line : ∀ a, fits a → '\n' ∉ (c.encode a).toList

theorem Codec.faithful_of_returns {α : Type} {c : Codec α} {fits : α → Prop}
    (h : ∀ a, fits a → c.Returns a a) : c.Faithful fits Eq where
  back a ha := ⟨a, (h a ha).decode?, rfl⟩
  line a ha := (h a ha).newline

section Words

theorem Side.returns (s : Side) : codec.Returns s s :=
  Codec.returns_word (by cases s <;> decide)

theorem Status.returns (s : Status) : codec.Returns s s :=
  Codec.returns_word (by cases s <;> decide)

theorem OrderId.returns (id : OrderId) : codec.Returns id id :=
  (Codec.returns_string id.text).through rfl

theorem Uuid.returns (u : Uuid) : codec.Returns u u :=
  (Codec.returns_string u.text).through u.ofText?_text

theorem Instant.Plain.returns {t : Instant} (h : t.Plain) : Instant.codec.Returns t t :=
  (Codec.returns_string t.text).through h.ofText?_text

end Words

section Prices

theorem Decimal.stripParts_stripped_self {m s : Nat} (stripped : s = 0 ∨ m % 10 ≠ 0) :
    stripParts m s = (m, s) := by
  cases s with
  | zero => rfl
  | succ s => rw [stripParts, if_neg (stripped.resolve_left (Nat.succ_ne_zero s))]

theorem Price.ofDecimal_value (p : Price) : ofDecimal p.value = .ok p := by
  have parts := Decimal.stripParts_stripped_self p.stripped
  have strip : p.value.strip = p.value := by
    unfold Decimal.strip
    simp only [parts]
  rw [ofDecimal, dif_pos p.positive]
  congr 1
  simp only [strip]

theorem Price.returns (p : Price) : codec.Returns p p := by
  have positive : 0 < p.value.magnitude := by
    have h := p.positive
    simp only [Decimal.isPositive, Bool.and_eq_true, decide_eq_true_eq] at h
    exact h.2
  have value := Codec.returns_decimal p.value
  rw [Decimal.unsignedZero_of_pos positive] at value
  exact value.through (by rw [p.ofDecimal_value]; rfl)

end Prices

structure Order.Fits (o : Order) : Prop where
  size : o.size ≤ maxCount
  quantity : o.quantity ≤ maxCount
  sequence : o.sequence ≤ maxCount
  createdAt : o.createdAt.Plain
  updatedAt : o.updatedAt.Plain

structure Trade.Fits (t : Trade) : Prop where
  sequence : t.sequence ≤ maxCount
  quantity : t.quantity ≤ maxCount
  createdAt : t.createdAt.Plain

structure DepthLevel.Fits (l : DepthLevel) : Prop where
  quantity : l.quantity ≤ maxCount
  orders : l.orders ≤ maxCount

structure Depth.Fits (d : Depth) : Prop where
  bids : ∀ l ∈ d.bids, l.Fits
  asks : ∀ l ∈ d.asks, l.Fits
  time : d.time.Plain

/-- What an event tells of fits. -/
inductive Event.Fits : Event → Prop where
  | added {o : Order} {t : Instant} : o.Fits → t.Plain → Fits (.added o t)
  | matched {o : Order} {q : Nat} {t : Instant} :
      o.Fits → q ≤ maxCount → t.Plain → Fits (.matched o q t)
  | cancelled {o : Order} {t : Instant} : o.Fits → t.Plain → Fits (.cancelled o t)
  | traded {x : Trade} {t : Instant} : x.Fits → t.Plain → Fits (.traded x t)

theorem Order.Fits.returns {o : Order} (h : o.Fits) : Order.codec.Returns o o :=
  Codec.returns_record
    ⟨o.id.returns, o.side.returns, o.price.returns, Codec.returns_count h.size,
      Codec.returns_count h.quantity, o.status.returns, Codec.returns_count h.sequence,
      h.createdAt.returns, h.updatedAt.returns, trivial⟩
    rfl (by decide)

theorem Trade.Fits.returns {t : Trade} (h : t.Fits) : Trade.codec.Returns t t :=
  Codec.returns_record
    ⟨t.id.returns, Codec.returns_count h.sequence, t.taker.returns, t.maker.returns,
      t.takerSide.returns, t.price.returns, Codec.returns_count h.quantity, h.createdAt.returns,
      trivial⟩
    rfl (by decide)

theorem DepthLevel.Fits.returns {l : DepthLevel} (h : l.Fits) : DepthLevel.codec.Returns l l :=
  Codec.returns_record
    ⟨l.price.returns, Codec.returns_count h.quantity, Codec.returns_count h.orders, trivial⟩
    rfl (by decide)

theorem Depth.Fits.returns {d : Depth} (h : d.Fits) : Depth.codec.Returns d d :=
  Codec.returns_record
    ⟨Codec.returns_list fun l hl => (h.bids l hl).returns,
      Codec.returns_list fun l hl => (h.asks l hl).returns, h.time.returns, trivial⟩
    rfl (by decide)

namespace Event

/-- The content of an event is what a codec writes of its parts, and reads for its kind alone. -/
theorem returns_of_content {α : Type} {c : Codec α} {a : α} {e : Event} {make : α → Event}
    (parts : c.Returns a a) (content : e.content = c.write a) (whole : make a = e)
    (kind : ∀ j, ofContent e.kind j = (c.read j).map make) : codec.Returns e e where
  written := .record fun m hm => by
    rw [List.mem_singleton.mp hm, content]
    exact parts.written
  read := by
    have found : EventKind.all.find? (fun k => k.name == e.kind.name) = some e.kind := by
      cases e <;> rfl
    simp only [codec, Json.record, content, readTagged, found, kind, parts.read]
    exact congrArg Except.ok whole

theorem Fits.returns {e : Event} (h : e.Fits) : codec.Returns e e := by
  cases h with
  | @added o t order time =>
    have parts : orderCodec.Returns (o, t) (o, t) :=
      Codec.returns_record ⟨order.returns, time.returns, trivial⟩ rfl (by decide)
    exact returns_of_content parts rfl rfl fun _ => rfl
  | @matched o q t order quantity time =>
    have parts : matchCodec.Returns (o, q, t) (o, q, t) :=
      Codec.returns_record
        ⟨order.returns, Codec.returns_count quantity, time.returns, trivial⟩ rfl (by decide)
    exact returns_of_content parts rfl rfl fun _ => rfl
  | @cancelled o t order time =>
    have parts : orderCodec.Returns (o, t) (o, t) :=
      Codec.returns_record ⟨order.returns, time.returns, trivial⟩ rfl (by decide)
    exact returns_of_content parts rfl rfl fun _ => rfl
  | @traded x t trade time =>
    have parts : tradeCodec.Returns (x, t) (x, t) :=
      Codec.returns_record ⟨trade.returns, time.returns, trivial⟩ rfl (by decide)
    exact returns_of_content parts rfl rfl fun _ => rfl

end Event

namespace OrderRequest

/-- The same request: a price is the same decimal if it has the same value and the same scale, and
only zero has two forms of that kind. -/
structure Same (r s : OrderRequest) : Prop where
  id : s.id = r.id
  side : s.side = r.side
  value : s.price.coefficient = r.price.coefficient
  scale : s.price.scale = r.price.scale
  quantity : s.quantity = r.quantity

theorem returns {price : Codec Decimal} (decimal : ∀ d, price.Returns d d.unsignedZero)
    {r : OrderRequest} (fits : r.quantity ≤ maxCount) :
    (codecOf price).Returns r { r with price := r.price.unsignedZero } := by
  have id : (Codec.option Codec.string).Returns r.id r.id := by
    cases r.id with
    | none => exact Codec.returns_none _
    | some t => exact (Codec.returns_string t).some nofun
  have names : ["id", "side", "price", "quantity"].Nodup := by decide
  exact Fields.Returns.record (y := (r.id, r.side, r.price.unsignedZero, r.quantity, ()))
    ⟨id, Codec.returns_string r.side, decimal r.price, Codec.returns_count fits, trivial⟩ rfl names

theorem faithful {price : Codec Decimal} (decimal : ∀ d, price.Returns d d.unsignedZero) :
    (codecOf price).Faithful (fun r => r.quantity ≤ maxCount) Same where
  back r fits := ⟨_, (returns decimal fits).decode?, rfl, rfl, by simp, rfl, rfl⟩
  line r fits := (returns decimal fits).newline

end OrderRequest
end Bourse
