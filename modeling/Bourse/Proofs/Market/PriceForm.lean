import Bourse.Proofs.Book.Adding
import Bourse.Proofs.Decimal.Exponent
import Bourse.Proofs.Engine.Runs
import Bourse.Proofs.Market.Codecs

/-! One form for every price. However a price was written, what is kept of it and shown depends on
its value alone: it is read back from its text, equal prices are those with one text, and a book has
at most one level for it. -/
namespace Bourse

open Text

section Digits

theorem Text.trimBoth_of_solid {cs : List Char} (solid : ∀ c ∈ cs, isBlank c = false) :
    trimBoth cs = cs := by
  have whole {ds : List Char} (solid : ∀ c ∈ ds, isBlank c = false) : ds.dropWhile isBlank = ds :=
    List.dropWhile_eq_self_iff.mpr fun long => by simp [solid _ (List.getElem_mem long)]
  rw [trimBoth, trimStart, whole solid, trimEnd, whole, List.reverse_reverse]
  exact fun c hc => solid c (List.mem_reverse.mp hc)

theorem Text.getLast?_padded (width n : Nat) :
    (padded width n).getLast? = some (n % 10).digitChar := by
  have last : (decimal n).getLast? = some (n % 10).digitChar := by
    rw [decimal, Nat.toDigits_eq_if (by decide)]
    split
    · rename_i small
      rw [Nat.mod_eq_of_lt small]
      rfl
    · exact List.getLast?_concat
  rw [padded, List.getLast?_append, last, Option.some_or]

theorem Text.digitChar_ne_zero {n : Nat} (small : n < 10) (some : n ≠ 0) :
    n.digitChar.isDigit = true ∧ n.digitChar ≠ '0' := by
  decide +revert

end Digits

namespace Decimal

variable (d : Decimal)

theorem toChars_cases {c : Char} (hc : c ∈ d.toChars) :
    c.isDigit = true ∨ c = '.' ∨ c = '-' ∧ d.negative = true := by
  rw [toChars_eq, List.mem_append, List.mem_append] at hc
  rcases hc with (sign | whole) | fraction
  · split at sign
    · rename_i negative
      exact .inr (.inr ⟨List.mem_singleton.mp sign, negative⟩)
    · cases sign
  · exact .inl (d.isDigit_of_mem_wholeDigits c whole)
  · split at fraction
    · cases fraction
    · rcases List.mem_cons.mp fraction with dot | digit
      · exact .inr (.inl dot)
      · exact .inl (d.isDigit_of_mem_fractionDigits c digit)

theorem trim_text : trim d.text = d.text := by
  rw [trim, text, String.toList_ofList, trimBoth_of_solid]
  intro c hc
  rcases d.toChars_cases hc with digit | rfl | ⟨rfl, -⟩
  · exact isBlank_of_isDigit digit
  · rfl
  · rfl

theorem getLast?_toChars (fraction : d.scale ≠ 0) :
    d.toChars.getLast? = some (d.magnitude % 10).digitChar := by
  have some : d.fractionDigits ≠ [] := fun none => fraction (d.fractionDigits_eq_nil.mp none)
  have long := length_padded (d.scale + 1) d.magnitude
  have last : d.fractionDigits.getLast? = .some (d.magnitude % 10).digitChar := by
    rw [fractionDigits, List.getLast?_drop, if_neg (by omega), getLast?_padded]
  rw [toChars_eq, if_neg some, List.getLast?_append, List.getLast?_cons, last]
  rfl

theorem compare_eq (a b : Decimal) : a.compare b = Ord.compare a.toRat b.toRat := by
  rcases lt_trichotomy a.toRat b.toRat with less | same | more
  · rw [compare_lt_iff_lt.mpr less]
    exact Int.compare_eq_lt.mpr (toRat_lt_iff.mp less)
  · rw [compare_eq_iff_eq.mpr same]
    exact Int.compare_eq_eq.mpr (toRat_eq_iff.mp same)
  · rw [compare_gt_iff_gt.mpr more]
    exact Int.compare_eq_gt.mpr (toRat_lt_iff.mp more)

end Decimal

namespace Price

variable {p q : Price} {s t : String}

/-- The text of a price has no sign and no zeros that could be left out, and it is read back. -/
structure Plain (p : Price) : Prop where
  unsigned : ∃ c, p.text.toList.head? = some c ∧ c.isDigit = true
  short : '.' ∈ p.text.toList → ∃ c, p.text.toList.getLast? = some c ∧ c.isDigit = true ∧ c ≠ '0'
  read : ofText p.text = .ok p
  decoded : codec.decode? (codec.encode p) = some p

theorem ofText_text (p : Price) : ofText p.text = .ok p := by
  rw [ofText, text, Decimal.trim_text, Decimal.ofText?_text,
    Decimal.unsignedZero_of_pos p.magnitude_pos]
  exact p.ofDecimal_value

theorem text_inj : p.text = q.text ↔ p = q := by
  constructor
  · intro same
    have read := p.ofText_text
    rw [same, ofText_text] at read
    exact (Except.ok.inj read).symm
  · rintro rfl
    rfl

theorem plain (p : Price) : p.Plain where
  unsigned := by
    obtain ⟨c, cs, whole⟩ := List.exists_cons_of_ne_nil p.value.wholeDigits_ne_nil
    refine ⟨c, ?_, p.value.isDigit_of_mem_wholeDigits c (whole ▸ List.mem_cons_self)⟩
    rw [text, Decimal.text, String.toList_ofList, Decimal.toChars_eq, sign_false, whole]
    rfl
  short := by
    intro point
    rw [text, Decimal.text, String.toList_ofList] at point ⊢
    have fraction : p.value.scale ≠ 0 := by
      intro none
      rw [Decimal.toChars_eq, sign_false, if_pos ((Decimal.fractionDigits_eq_nil _).mpr none),
        List.append_nil] at point
      exact absurd (p.value.isDigit_of_mem_wholeDigits _ point) (by decide)
    have last := p.stripped.resolve_left fraction
    exact ⟨_, Decimal.getLast?_toChars _ fraction,
      digitChar_ne_zero (Nat.mod_lt _ (by decide)) last⟩
  read := p.ofText_text
  decoded := p.returns.decode?

/-- What comparing two prices tells. -/
structure Compared (p q : Price) : Prop where
  text : p.compare q = .eq ↔ p.text = q.text
  parts : p.compare q = .eq ↔
    p.value.magnitude = q.value.magnitude ∧ p.value.scale = q.value.scale
  number : p.compare q = Ord.compare p.value.toRat q.value.toRat
  less : p.compare q = .lt ↔ p < q
  smaller : p.compare q ≠ .eq → Xor (p < q) (q < p)

theorem compare_eq_iff : p.compare q = .eq ↔ p = q := by
  rw [compare, Decimal.compare_eq, compare_eq_iff_eq, toRat_inj]

theorem compared (p q : Price) : Compared p q where
  text := compare_eq_iff.trans text_inj.symm
  parts := by
    rw [compare_eq_iff]
    constructor
    · rintro rfl
      exact ⟨rfl, rfl⟩
    · rintro ⟨magnitude, scale⟩
      exact eq_of_same (by rw [magnitude, scale])
  number := Decimal.compare_eq _ _
  less := Int.compare_eq_lt
  smaller := by
    intro other
    have ne : p ≠ q := fun same => other (compare_eq_iff.mpr same)
    rcases lt_total ne with less | more
    · exact .inl ⟨less, fun more => lt_irrefl p (lt_trans less more)⟩
    · exact .inr ⟨more, fun less => lt_irrefl p (lt_trans less more)⟩

/-- The numeral that is read from a text. -/
def numeral (s : String) : List Char := (trim s).toList

theorem toRat_of_ofDecimal {d : Decimal} (made : ofDecimal d = .ok p) :
    p.value.toRat = d.toRat := by
  unfold ofDecimal at made
  split at made
  · obtain rfl := Except.ok.inj made
    exact d.toRat_strip
  · cases made

/-- If the number of the text is held, it is the price. -/
theorem ofText_exact (read : ofText s = .ok p) (exact : Decimal.Exact (numeral s)) :
    p.value.toRat = Decimal.number (numeral s) := by
  unfold ofText at read
  split at read
  · rename_i d taken
    rw [toRat_of_ofDecimal read]
    exact (Decimal.ofChars?_reads taken).exact_iff.mpr exact
  · cases read

end Price

/-- A price finds the level that shows the text of the price, and no two levels of a side show the
same. -/
structure Book.ShowsPrices (b : Book) : Prop where
  found : ∀ side price l, (b.ladder side).level? price = some l ↔
    l ∈ (b.ladder side).levels ∧ l.price.text = price.text
  apart : ∀ side, ((b.ladder side).levels.map (·.price.text)).Nodup

theorem Book.Sound.showsPrices {b : Book} (h : b.Sound) : b.ShowsPrices where
  found side price l := by
    have prices := (h.ladders side).ranked.prices
    rw [Price.text_inj]
    constructor
    · intro found
      exact ⟨List.mem_of_find?_eq_some found, by simpa using List.find?_some found⟩
    · rintro ⟨here, rfl⟩
      exact find_key_of_mem prices here
  apart side := by
    have prices := (h.ladders side).ranked.prices
    have texts := prices.map fun p q => Price.text_inj.mp
    rwa [List.map_map] at texts

namespace Price

variable {p q : Price} {s t : String}

/-- Prices read from any two texts have their one form, and compare as their texts, their parts and
their numbers do. Where the numbers of the texts are held, before their exponents too, they are what
is compared, so that one number is one price however it is written. In any book a price leads to the
level that shows it. -/
theorem one_form (hs : ofText s = .ok p) (ht : ofText t = .ok q) :
    p.Plain ∧ q.Plain ∧ Compared p q ∧
    (Decimal.Exact (numeral s) → Decimal.Exact (numeral t) →
      p.compare q = Ord.compare (Decimal.number (numeral s)) (Decimal.number (numeral t))) ∧
    (∀ b : Book, b.Built → b.ShowsPrices) ∧
    ∀ ss, ∃ e outs, Engine.new.run ss = .ok (e, outs) ∧ e.book.ShowsPrices := by
  refine ⟨p.plain, q.plain, compared p q, ?_, fun b built => built.sound.showsPrices, fun ss => ?_⟩
  · intro exact exact'
    rw [(compared p q).number, ofText_exact hs exact, ofText_exact ht exact']
  · obtain ⟨e, outs, ran, effects⟩ := Engine.sound_new.run ss
    exact ⟨e, outs, ran, (effects.advances Engine.sound_new).sound.book.showsPrices⟩

/-- A hundred, written with a fraction or with an exponent, is one price, and below it is what comes
to less. -/
theorem one_form_of_hundred : ∃ p q r : Price, ofText " +1_00.0" = .ok p ∧ ofText "1e2" = .ok q ∧
    ofText "9999.0e-2" = .ok r ∧ p.compare q = .eq ∧ p.text = q.text ∧ Xor (r < p) (p < r) ∧
    r.text = "99.99" := by
  let p : Price := ⟨⟨false, 100, 0, by decide, by decide⟩, rfl, .inl rfl⟩
  let r : Price := ⟨⟨false, 9999, 2, by decide, by decide⟩, rfl, .inr (by decide)⟩
  have hp : ofText " +1_00.0" = .ok p := by decide
  have hq : ofText "1e2" = .ok p := by decide
  have hr : ofText "9999.0e-2" = .ok r := by decide
  obtain ⟨-, -, same, -⟩ := one_form hp hq
  obtain ⟨-, -, apart, -⟩ := one_form hr hp
  exact ⟨p, p, r, hp, hq, hr, same.text.mpr rfl, rfl, apart.smaller (by decide), by decide⟩

end Price
end Bourse
