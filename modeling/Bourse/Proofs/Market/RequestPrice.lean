import Bourse.Proofs.Json.Literals
import Bourse.Proofs.Market.PriceForm

/-! The price of a request for an order. The number may be written in the body with any number of
digits and with an exponent, but a decimal has room for so many: what does not fit is rounded off,
and the order has another limit than the one asked for. -/
namespace Bourse

namespace Fields

variable {α β : Type} {name : String} {codec : Codec α} {rest : Fields β} {x : α × β}

theorem exists_of_map_ok {a : α} {e : Except ReadError β} (h : e.map (a, ·) = .ok x) :
    a = x.1 ∧ e = .ok x.2 := by
  cases e with
  | error => cases h
  | ok y => exact ⟨congrArg Prod.fst (Except.ok.inj h), congrArg (Except.ok ·.2) (Except.ok.inj h)⟩

/-- A field is read from the member of its name, unless there is none. -/
theorem build_cons {ms : List (String × Json)} (built : (cons name codec rest).build ms = .ok x) :
    ((∃ j, ms.lookup name = some j ∧ codec.read j = .ok x.1) ∨ absent codec = .ok x.1) ∧
      rest.build ms = .ok x.2 := by
  rw [build] at built
  split at built
  · cases built
  · rename_i a first
    obtain ⟨rfl, others⟩ := exists_of_map_ok built
    refine ⟨?_, others⟩
    split at first
    · rename_i j here
      exact .inl ⟨j, here, first⟩
    · exact .inr first

/-- Of values without names the first is that of the first field. -/
theorem readItems_cons {closed : Bool} {items : List Json}
    (read : (cons name codec rest).readItems closed items = .ok x) :
    ((∃ j, items.head? = some j ∧ codec.read j = .ok x.1) ∨ absent codec = .ok x.1) ∧
      rest.readItems closed items.tail = .ok x.2 := by
  cases items with
  | nil =>
    rw [readItems] at read
    split at read
    · split at read
      · cases read
      · rename_i a missing
        obtain ⟨rfl, others⟩ := exists_of_map_ok read
        exact ⟨.inr missing, others⟩
    · cases read
  | cons j js =>
    rw [readItems] at read
    split at read
    · cases read
    · rename_i a first
      obtain ⟨rfl, others⟩ := exists_of_map_ok read
      exact ⟨.inl ⟨j, rfl, first⟩, others⟩

end Fields

namespace Codec

/-- The numeral in a value that a decimal may be read from. -/
def literal? : Json → Option String
  | .string t => some t
  | .number t => some t
  | .object .closed [(k, .string t)] => if k = numberKey then some t else none
  | _ => none

theorem literal?_of_read {j : Json} {d : Decimal} (read : decimal.read j = .ok d) :
    ∃ t, literal? j = some t ∧ Decimal.ofText? t = some d := by
  have numeral {t : String} (read : decimal.ofNumeral t = .ok d) : Decimal.ofText? t = some d := by
    unfold decimal.ofNumeral at read
    split at read
    · rename_i e value
      rw [value, Except.ok.inj read]
    · cases read
  cases j with
  | string t => exact ⟨t, rfl, numeral read⟩
  | number t => exact ⟨t, rfl, numeral read⟩
  | object ending ms =>
    cases ms with
    | nil => cases ending <;> cases read
    | cons m others =>
      obtain ⟨k, i⟩ := m
      unfold decimal at read
      simp only at read
      split at read
      · rename_i key
        split at read
        · cases read
        · rename_i e inner
          split at read
          · rename_i alone
            obtain ⟨closed, nothing⟩ := Bool.and_eq_true_iff.mp alone
            obtain rfl : ending = .closed := beq_iff_eq.mp closed
            obtain rfl := List.isEmpty_iff.mp nothing
            obtain rfl := Except.ok.inj read
            unfold decimal.ofText at inner
            split at inner
            · exact ⟨_, if_pos key, numeral inner⟩
            · cases inner
          · cases read
      · cases read
  | _ => cases read

theorem readText_of_decode? {α : Type} {c : Codec α} {s : String} {a : α}
    (decoded : c.decode? s = some a) : c.readText s = .ok a := by
  obtain ⟨j, parsed, value⟩ := Option.bind_eq_some_iff.mp decoded
  have tree : (Json.read s).1 = j := by
    unfold Json.parse? at parsed
    split at parsed
    · rename_i whole
      rw [whole]
      exact Option.some.inj (Option.ite_none_right_eq_some.mp parsed).2
    · cases parsed
  rw [readText, tree]
  cases same : c.read j with
  | error e => rw [same] at value; cases value
  | ok b => rw [same] at value; exact congrArg Except.ok (Option.some.inj value)

end Codec

namespace OrderRequest

/-- Where the price stands in a body: under its name, or as the third of values without names. -/
def priceIn? : Json → Option Json
  | .object _ ms => ms.lookup "price"
  | .array _ items => items[2]?
  | _ => none

theorem priceIn?_of_read {j : Json} {r : OrderRequest} (read : bareCodec.read j = .ok r) :
    ∃ i, priceIn? j = some i ∧ Codec.decimal.read i = .ok r.price := by
  have needed (d : Decimal) : Fields.absent Codec.bareDecimal ≠ .ok d := nofun
  obtain ⟨x, parts, rfl⟩ : ∃ x, (fields Codec.bareDecimal).read j = .ok x ∧
      (⟨x.1, x.2.1, x.2.2.1, x.2.2.2.1⟩ : OrderRequest) = r := by
    change ((fields Codec.bareDecimal).read j).map _ = _ at read
    cases parts : (fields Codec.bareDecimal).read j with
    | error e => rw [parts] at read; cases read
    | ok x => rw [parts] at read; exact ⟨x, rfl, Except.ok.inj read⟩
  cases j with
  | object ending ms =>
    rw [Fields.read, Fields.readMembers] at parts
    split at parts
    · cases parts
    · split at parts
      · obtain ⟨-, sides⟩ := Fields.build_cons parts
        obtain ⟨-, prices⟩ := Fields.build_cons sides
        obtain ⟨price, -⟩ := Fields.build_cons prices
        exact price.resolve_right (needed _)
      · cases parts
  | array closed items =>
    obtain ⟨-, sides⟩ := Fields.readItems_cons parts
    obtain ⟨-, prices⟩ := Fields.readItems_cons sides
    obtain ⟨price, -⟩ := Fields.readItems_cons prices
    obtain ⟨i, third, value⟩ := price.resolve_right (needed _)
    refine ⟨i, ?_, value⟩
    rw [priceIn?, ← third, List.head?_eq_getElem?, List.getElem?_tail, List.getElem?_tail]
  | _ => cases parts

/-- The literal of the price in a body. -/
def literal? (body : String) : Option String := (priceIn? (Json.read body).1).bind Codec.literal?

theorem price_of_toOrder {r : OrderRequest} {fresh : OrderId} {now : Instant} {o : Order}
    (made : r.toOrder fresh now = .ok o) : o.price.value.toRat = r.price.toRat := by
  unfold toOrder at made
  split at made
  · cases made
  · split at made
    · cases made
    · rename_i p price
      split at made
      · cases made
      · obtain rfl := Except.ok.inj made
        exact Price.toRat_of_ofDecimal price

/-- A number that stands in the tree for the price stands in the body. -/
theorem infix_of_priceIn? {body t : String}
    (price : priceIn? (Json.read body).1 = some (.number t)) : t.toList <:+: body.toList := by
  apply Json.infix_of_mentions
  unfold priceIn? at price
  split at price
  · rename_i ending ms tree
    rw [tree]
    obtain ⟨before, behind, rfl, -⟩ := List.lookup_eq_some_iff.mp price
    exact .member (List.mem_append_right before List.mem_cons_self) .number
  · rename_i closed items tree
    rw [tree]
    exact .item (List.mem_of_getElem? price) .number
  · cases price

/-- Whatever the body, an order taken from it has the price written there just if the number is
held, before its exponent too. Otherwise the price is another number, by less than one unit of the
last digit read. A price written as a number stands in the body as it is taken here. -/
theorem price_exact_just_if_held {body : String} {r : OrderRequest} {fresh : OrderId}
    {now : Instant} {o : Order} (read : bareCodec.readText body = .ok r)
    (made : r.toOrder fresh now = .ok o) : ∃ t, literal? body = some t ∧
      (o.price.value.toRat = Decimal.number t.toList ↔ Decimal.Exact t.toList) ∧
      |o.price.value.toRat - Decimal.number t.toList| < 1 / 10 ^ r.price.scale ∧
      (priceIn? (Json.read body).1 = some (.number t) → t.toList <:+: body.toList) := by
  obtain ⟨i, stands, value⟩ := priceIn?_of_read read
  obtain ⟨t, literal, taken⟩ := Codec.literal?_of_read value
  have reads := Decimal.ofChars?_reads taken
  rw [price_of_toOrder made]
  refine ⟨t, ?_, reads.exact_iff, reads.near, infix_of_priceIn?⟩
  rw [literal?, stands, Option.bind_some, literal]

/-- A request for one to buy. -/
def bidBody (price : String) : String :=
  "\x7b\"side\":\"BUY\",\"price\":" ++ price ++ ",\"quantity\":1\x7d"

/-- Sixteen digits behind the point have room. -/
theorem price_exact_of_sixteen_digits : ∃ r o, bareCodec.decode? (bidBody "100.0000000000000001") =
    some r ∧ r.toOrder ⟨"1"⟩ .epoch = .ok o ∧ o.price.text = "100.0000000000000001" ∧
    Decimal.Exact "100.0000000000000001".toList := by
  let d : Decimal := ⟨false, 1000000000000000001, 16, by decide, by decide⟩
  let o := Order.new ⟨"1"⟩ .buy ⟨d, by decide, .inr (by decide)⟩ 1 .epoch
  have read : bareCodec.decode? (bidBody "100.0000000000000001") = some ⟨none, "BUY", d, 1⟩ := by
    decide +kernel
  have made : toOrder ⟨none, "BUY", d, 1⟩ ⟨"1"⟩ .epoch = .ok o := by decide +kernel
  obtain ⟨t, literal, exact_iff, -, -⟩ :=
    price_exact_just_if_held (Codec.readText_of_decode? read) made
  have same : literal? (bidBody "100.0000000000000001") = some "100.0000000000000001" := by
    decide +kernel
  obtain rfl := Option.some.inj (literal.symm.trans same)
  exact ⟨_, o, read, made, by decide +kernel, exact_iff.mp (by decide +kernel)⟩

/-- With a digit more than there is room for the order goes to another limit, even if there is room
for the number and only its digits before the exponent are too many. -/
theorem price_altered_beyond_room :
    let altered (literal shown : String) : Prop := ∃ r o,
      bareCodec.decode? (bidBody literal) = some r ∧ r.toOrder ⟨"1"⟩ .epoch = .ok o ∧
      literal? (bidBody literal) = some literal ∧ o.price.text = shown ∧
      o.price.value.toRat ≠ Decimal.number literal.toList
    altered "1.00000000000000000000000000005" "1.0000000000000000000000000001" ∧
    altered "0.00000000000000000000000000015e1" "0.000000000000000000000000002" ∧
    Decimal.Held (Decimal.number "0.00000000000000000000000000015e1".toList) := by
  intro altered
  refine ⟨?_, ?_, ?_⟩
  · let d : Decimal := ⟨false, 10000000000000000000000000001, 28, by decide, by decide⟩
    let o := Order.new ⟨"1"⟩ .buy ⟨d, by decide, .inr (by decide)⟩ 1 .epoch
    refine ⟨⟨none, "BUY", d, 1⟩, o, ?_, ?_, ?_, ?_, ?_⟩
    all_goals decide +kernel
  · let d : Decimal := ⟨false, 2, 27, by decide, by decide⟩
    let o := Order.new ⟨"1"⟩ .buy ⟨d, by decide, .inr (by decide)⟩ 1 .epoch
    refine ⟨⟨none, "BUY", d, 1⟩, o, ?_, ?_, ?_, ?_, ?_⟩
    all_goals decide +kernel
  · exact ⟨⟨false, 15, 28, by decide, by decide⟩, by decide +kernel⟩

end OrderRequest

end Bourse
