import Bourse.Json.Reader
import Bourse.Proofs.Text.Digits

/-! JSON that has been written is read back as it was, and stands on one line. -/
namespace Bourse.Json

open Bourse.Text

section Strings

theorem joinPieces_unit {n : Nat} (small : n < 32) (ps : List Piece) :
    joinPieces (.unit n :: ps) = (joinPieces ps).map (Char.ofNat n :: ·) := by
  have leading : isLeading n = false := by
    simp only [isLeading, Bool.and_eq_false_iff, decide_eq_false_iff_not]
    omega
  have trailing : isTrailing n = false := by
    simp only [isTrailing, Bool.and_eq_false_iff, decide_eq_false_iff_not]
    omega
  rcases ps with _ | ⟨_ | _, ps⟩ <;> simp [joinPieces, leading, trailing, Function.comp_def]

theorem pieces_short {e c : Char} (short : shortEscape? e = some c) (cs : List Char) :
    pieces ('\\' :: e :: cs) = (pieces cs).map fun (ps, r) => (.char c :: ps, r) := by
  have other : e ≠ 'u' := by
    rintro rfl
    cases short
  rw [pieces.eq_def]
  simp [other, short]

theorem pieces_control {c : Char} (small : c.toNat < 32) (cs : List Char) :
    pieces ('\\' :: 'u' :: hexPadded 4 c.toNat ++ cs) =
      (pieces cs).map fun (ps, r) => (.unit c.toNat :: ps, r) := by
  have four : (hexPadded 4 c.toNat).length = 4 := length_hexPadded (by decide) (by omega)
  have value := hexValue?_hexPadded 4 c.toNat
  generalize hexPadded 4 c.toNat = digits at four value
  match digits, four with
  | [_, _, _, _], _ =>
    rw [pieces.eq_def]
    simp [value]

theorem pieces_plain {c : Char} (quote : c ≠ '"') (slash : c ≠ '\\') (large : ¬c.toNat < 32)
    (cs : List Char) : pieces (c :: cs) = (pieces cs).map fun (ps, r) => (.char c :: ps, r) := by
  rw [pieces.eq_def]
  simp only [if_neg quote, if_neg slash, if_neg large]

/-- What is written for a character is read as one piece, and that piece stands for it. -/
theorem pieces_escape (c : Char) : ∃ p,
    (∀ cs, pieces (escape c ++ cs) = (pieces cs).map fun (ps, r) => (p :: ps, r)) ∧
      ∀ ps, joinPieces (p :: ps) = (joinPieces ps).map (c :: ·) := by
  unfold escape
  iterate 7
    split
    · subst c
      exact ⟨.char _, pieces_short rfl, fun _ => rfl⟩
  split
  · rename_i small
    refine ⟨.unit c.toNat, pieces_control small, fun ps => ?_⟩
    rw [joinPieces_unit small, Char.ofNat_toNat]
  · rename_i quote slash _ _ _ _ _ large
    exact ⟨.char c, pieces_plain quote slash large, fun _ => rfl⟩

theorem pieces_end (cs : List Char) : pieces ('"' :: cs) = some ([], cs) := by
  rw [pieces.eq_def]
  rfl

theorem pieces_quote (cs rest : List Char) :
    ∃ ps, pieces (cs.flatMap escape ++ '"' :: rest) = some (ps, rest) ∧
      joinPieces ps = some cs := by
  induction cs with
  | nil => exact ⟨[], pieces_end rest, rfl⟩
  | cons c cs ih =>
    obtain ⟨ps, read, joined⟩ := ih
    obtain ⟨p, one, whole⟩ := pieces_escape c
    refine ⟨p :: ps, ?_, ?_⟩
    · rw [List.flatMap_cons, List.append_assoc, one, read]
      rfl
    · rw [whole, joined]
      rfl

theorem quoted_quote (t : String) (rest : List Char) :
    quoted (t.toList.flatMap escape ++ '"' :: rest) = some (some t, rest) := by
  obtain ⟨ps, read, joined⟩ := pieces_quote t.toList rest
  simp [quoted, read, joined]

end Strings

section Numbers

/-- A literal as it is written for a number: perhaps a sign, digits without a needless zero in
front, and perhaps digits of a fraction. -/
inductive Numeral : List Char → Prop where
  | mk (negative : Bool) {whole fraction : List Char} : (∀ c ∈ whole, c.isDigit = true) →
      (∀ c ∈ fraction, c.isDigit = true) → whole ≠ [] → (whole.head? = some '0' → whole = ['0']) →
      Numeral ((if negative then ['-'] else []) ++ whole ++
        (if fraction = [] then [] else '.' :: fraction))

theorem numeral_decimal (n : Nat) : Numeral (decimal n) := by
  have digits : ∀ c ∈ decimal n, c.isDigit = true := by
    rw [decimal_eq_padded]
    exact fun _ => isDigit_of_mem_padded
  have alone : (decimal n).head? = some '0' → decimal n = ['0'] := fun zero => by
    rw [eq_zero_of_head_decimal zero]
    rfl
  have fraction : ∀ c ∈ ([] : List Char), c.isDigit = true := List.forall_mem_nil _
  simpa using Numeral.mk false digits fraction Nat.toDigits_ne_nil alone

/-- What may stand behind a value: nothing, or what separates or closes. -/
def Ends (rest : List Char) : Prop :=
  ∀ c, rest.head? = some c → c = ',' ∨ c = ']' ∨ c = '\x7d'

variable {cs rest whole fraction : List Char}

theorem Ends.digit (h : Ends rest) (c : Char) (first : rest.head? = some c) :
    c.isDigit = false := by
  rcases h c first with rfl | rfl | rfl <;> rfl

theorem exponentPart_ends (h : Ends rest) : exponentPart rest = some ([], rest) := by
  cases rest with
  | nil => rfl
  | cons c cs => rcases h c rfl with rfl | rfl | rfl <;> rfl

theorem fractionPart_append (digits : ∀ c ∈ fraction, c.isDigit = true) (h : Ends rest) :
    fractionPart ((if fraction = [] then [] else '.' :: fraction) ++ rest) =
      some (if fraction = [] then [] else '.' :: fraction, rest) := by
  cases fraction with
  | nil =>
    cases rest with
    | nil => rfl
    | cons c cs => rcases h c rfl with rfl | rfl | rfl <;> rfl
  | cons d ds =>
    obtain ⟨taken, left⟩ := span_digits digits h.digit
    simp only [List.cons_append] at taken left
    simp [fractionPart, digitsAfter, taken, left]

theorem wholePart_append (digits : ∀ c ∈ whole, c.isDigit = true) (some : whole ≠ [])
    (zero : whole.head? = .some '0' → whole = ['0'])
    (ends : ∀ c, rest.head? = .some c → c.isDigit = false) :
    wholePart (whole ++ rest) = .some (whole, rest) := by
  obtain ⟨taken, left⟩ := span_digits digits ends
  rw [wholePart, taken, left]
  cases whole with
  | nil => exact absurd rfl some
  | cons d ds =>
    refine if_neg fun needless => ?_
    have alone := zero (congrArg Option.some needless.1)
    exact needless.2 (List.cons.inj alone).2

theorem Numeral.read (h : Numeral cs) (ends : Ends rest) :
    numeral (cs ++ rest) = some (cs, rest) := by
  obtain ⟨negative, wholes, fractions, some, zero⟩ := h
  rename_i whole fraction
  have next : ∀ c, ((if fraction = [] then [] else '.' :: fraction) ++ rest).head? = .some c →
      c.isDigit = false := by
    cases fraction with
    | nil => exact ends.digit
    | cons d ds =>
      rintro c ⟨⟩
      rfl
  have one := wholePart_append wholes some zero next
  have two := fractionPart_append fractions ends
  have three := exponentPart_ends ends
  cases negative with
  | true =>
    simp [numeral, one, two, three]
  | false =>
    cases whole with
    | nil => exact absurd rfl some
    | cons d ds =>
      have unsigned : d ≠ '-' := ne_of_isDigit (wholes d List.mem_cons_self) rfl
      rw [List.cons_append] at one
      simp [numeral, one, two, three, unsigned]

theorem Numeral.head (h : Numeral cs) :
    ∃ c r, cs = c :: r ∧ (c = '-' ∨ c.isDigit = true) := by
  obtain ⟨negative, wholes, -, some, -⟩ := h
  rename_i whole fraction
  cases negative with
  | true => exact ⟨'-', _, rfl, .inl rfl⟩
  | false =>
    cases whole with
    | nil => exact absurd rfl some
    | cons d ds => exact ⟨d, _, rfl, .inr (wholes d List.mem_cons_self)⟩

theorem Numeral.newline (h : Numeral cs) : '\n' ∉ cs := by
  obtain ⟨negative, wholes, fractions, -, -⟩ := h
  rename_i whole fraction
  have inWhole : '\n' ∉ whole := fun there => absurd (wholes _ there) (by decide)
  have inFraction : '\n' ∉ fraction := fun there => absurd (fractions _ there) (by decide)
  cases negative <;> cases fraction <;> simp_all

end Numbers

section Values

/-- Everything in the value can be written. -/
inductive Written : Json → Prop where
  | null : Written .null
  | bool (b : Bool) : Written (.bool b)
  | number {literal : String} : Numeral literal.toList → Written (.number literal)
  | string (t : String) : Written (.string t)
  | list {items : List Json} : (∀ j ∈ items, Written j) → Written (.list items)
  | record {ms : List (String × Json)} : (∀ m ∈ ms, Written m.2) → Written (.record ms)

/-- The text of a value is read as this value. The text starts as no closing bracket does. -/
structure Reads (j : Json) : Prop where
  value : ∀ (n : Nat) (rest : List Char), Ends rest → 2 * j.toChars.length + 2 ≤ n →
    value n (j.toChars ++ rest) = (j, some rest)
  head : ∃ c cs, j.toChars = c :: cs ∧ isSpace c = false ∧ c ≠ ']'

theorem skipSpace_cons {c : Char} (solid : isSpace c = false) (cs : List Char) :
    skipSpace (c :: cs) = c :: cs := by
  rw [skipSpace, List.dropWhile_cons_of_neg (by simp [solid])]

theorem elements_itemChars {items : List Json} (some : items ≠ []) (reads : ∀ j ∈ items, Reads j)
    {n : Nat} {rest : List Char} (steps : 2 * (itemChars items).length + 3 ≤ n) :
    elements n (itemChars items ++ ']' :: rest) = (items, .some rest) := by
  induction items generalizing n with
  | nil => exact absurd rfl some
  | cons j js ih =>
    have one := reads j List.mem_cons_self
    obtain ⟨n, rfl⟩ : ∃ k, n = k + 1 := ⟨n - 1, by omega⟩
    cases js with
    | nil =>
      simp only [itemChars] at steps ⊢
      rw [elements, one.value _ (']' :: rest) (by rintro _ ⟨⟩; exact .inr (.inl rfl))
        (by omega)]
      simp only [skipSpace_cons (c := ']') rfl]
    | cons i is =>
      simp only [itemChars, List.length_append, List.length_cons] at steps ⊢
      rw [List.append_assoc, elements, List.cons_append,
        one.value _ (',' :: _) (by rintro _ ⟨⟩; exact .inl rfl) (by omega)]
      simp only [skipSpace_cons (c := ',') rfl]
      rw [ih (by simp) (fun x hx => reads x (List.mem_cons_of_mem _ hx)) (by omega)]

theorem members_memberChars {ms : List (String × Json)} (some : ms ≠ [])
    (reads : ∀ m ∈ ms, Reads m.2) {n : Nat} {rest : List Char}
    (steps : 2 * (memberChars ms).length + 3 ≤ n) :
    members n (memberChars ms ++ '\x7d' :: rest) =
      (ms.map fun m => (.some m.1, m.2), .some rest) := by
  induction ms generalizing n with
  | nil => exact absurd rfl some
  | cons m ms ih =>
    obtain ⟨k, j⟩ := m
    have one : Reads j := reads (k, j) List.mem_cons_self
    obtain ⟨n, rfl⟩ : ∃ k, n = k + 1 := ⟨n - 1, by omega⟩
    -- The key is read up to its quote, and the colon behind it is taken off.
    have key : ∀ tail, quoted (k.toList.flatMap escape ++ ('"' :: tail)) = .some (.some k, tail) :=
      quoted_quote k
    cases ms with
    | nil =>
      simp only [memberChars, quote, List.length_append, List.length_cons, List.cons_append,
        List.append_assoc, List.nil_append] at steps ⊢
      rw [members, skipSpace_cons rfl]
      simp only [key, skipSpace_cons (c := ':') rfl]
      rw [one.value _ ('\x7d' :: rest) (by rintro _ ⟨⟩; exact .inr (.inr rfl)) (by omega)]
      simp only [skipSpace_cons (c := '\x7d') rfl, List.map_cons, List.map_nil]
    | cons i is =>
      simp only [memberChars, quote, List.length_append, List.length_cons, List.cons_append,
        List.append_assoc, List.nil_append] at steps ⊢
      rw [members, skipSpace_cons rfl]
      simp only [key, skipSpace_cons (c := ':') rfl]
      rw [one.value _ (',' :: _) (by rintro _ ⟨⟩; exact .inl rfl) (by omega)]
      simp only [skipSpace_cons (c := ',') rfl]
      rw [ih (by simp) (fun x hx => reads x (List.mem_cons_of_mem _ hx)) (by omega)]
      rfl

theorem named_map_some (ms : List (String × Json)) :
    named (ms.map fun m => (some m.1, m.2)) = ms := by
  induction ms with
  | nil => rfl
  | cons m ms ih => rw [List.map_cons, named, ih]

theorem value_plain {c : Char} (solid : isSpace c = false) (quote : c ≠ '"') (bracket : c ≠ '[')
    (brace : c ≠ '\x7b') (n : Nat) (cs : List Char) :
    value (n + 1) (c :: cs) = plainValue (c :: cs) := by
  rw [value, skipSpace_cons solid]
  simp only [if_neg quote, if_neg bracket, if_neg brace]

theorem reads_null : Reads null where
  value n rest _ steps := by
    obtain ⟨n, rfl⟩ : ∃ k, n = k + 1 := ⟨n - 1, by omega⟩
    exact value_plain rfl (by decide) (by decide) (by decide) n _
  head := ⟨'n', _, rfl, rfl, by decide⟩

theorem reads_bool (b : Bool) : Reads (bool b) where
  value n rest _ steps := by
    obtain ⟨n, rfl⟩ : ∃ k, n = k + 1 := ⟨n - 1, by omega⟩
    cases b
    · exact value_plain rfl (by decide) (by decide) (by decide) n _
    · exact value_plain rfl (by decide) (by decide) (by decide) n _
  head := by
    cases b
    · exact ⟨'f', _, rfl, rfl, by decide⟩
    · exact ⟨'t', _, rfl, rfl, by decide⟩

theorem reads_number {literal : String} (h : Numeral literal.toList) : Reads (number literal) := by
  obtain ⟨c, r, text, first⟩ := h.head
  have apart {d : Char} (minus : '-' ≠ d) (digit : d.isDigit = false) : c ≠ d := by
    rcases first with rfl | digits
    · exact minus
    · exact ne_of_isDigit digits digit
  have solid : isSpace c = false := by
    simp only [isSpace, Bool.or_eq_false_iff, beq_eq_false_iff_ne]
    exact ⟨⟨⟨apart (by decide) rfl, apart (by decide) rfl⟩, apart (by decide) rfl⟩,
      apart (by decide) rfl⟩
  have plain (rest : List Char) (ends : Ends rest) :
      plainValue (c :: (r ++ rest)) = (.number literal, some rest) := by
    have other {d : Char} (ds : List Char) (first : d ≠ c) :
        (d :: ds).isPrefixOf (c :: (r ++ rest)) = false := by
      simp [List.isPrefixOf, first]
    have noNull := other "ull".toList (apart (d := 'n') (by decide) rfl).symm
    have noTrue := other "rue".toList (apart (d := 't') (by decide) rfl).symm
    have noFalse := other "alse".toList (apart (d := 'f') (by decide) rfl).symm
    have read := h.read ends
    rw [text, List.cons_append] at read
    simp only [plainValue, read, ← text, String.ofList_toList]
    exact (if_neg (ne_true_of_eq_false noNull)).trans
      ((if_neg (ne_true_of_eq_false noTrue)).trans (if_neg (ne_true_of_eq_false noFalse)))
  exact
    { value := by
        intro n rest ends steps
        obtain ⟨n, rfl⟩ : ∃ k, n = k + 1 := ⟨n - 1, by omega⟩
        rw [toChars, text, List.cons_append, value_plain solid (apart (by decide) rfl)
          (apart (by decide) rfl) (apart (by decide) rfl), plain rest ends]
      head := ⟨c, r, text, solid, apart (by decide) rfl⟩ }

theorem reads_string (t : String) : Reads (string t) where
  value n rest _ steps := by
    obtain ⟨n, rfl⟩ : ∃ k, n = k + 1 := ⟨n - 1, by omega⟩
    simp only [toChars, quote, List.cons_append, List.append_assoc, List.nil_append]
    rw [value, skipSpace_cons rfl]
    simp only [quoted_quote, if_true]
  head := ⟨'"', _, rfl, rfl, by decide⟩

theorem head_itemChars {items : List Json} (some : items ≠ []) (reads : ∀ j ∈ items, Reads j)
    (rest : List Char) : (skipSpace (itemChars items ++ rest)).head? ≠ .some ']' := by
  cases items with
  | nil => exact absurd rfl some
  | cons j js =>
    obtain ⟨c, cs, text, solid, other⟩ := (reads j List.mem_cons_self).head
    have starts : ∃ tail, itemChars (j :: js) ++ rest = c :: tail := by
      cases js <;> simp [itemChars, text]
    obtain ⟨tail, first⟩ := starts
    rw [first, skipSpace_cons solid]
    exact fun same => other (Option.some.inj same)

theorem head_memberChars {ms : List (String × Json)} (some : ms ≠ []) (rest : List Char) :
    (skipSpace (memberChars ms ++ rest)).head? ≠ .some '\x7d' := by
  obtain ⟨m, ms, rfl⟩ := List.exists_cons_of_ne_nil some
  have starts : ∃ tail, memberChars (m :: ms) ++ rest = '"' :: tail := by
    cases ms <;> exact ⟨_, rfl⟩
  obtain ⟨tail, first⟩ := starts
  rw [first, skipSpace_cons rfl]
  exact fun same => absurd (Option.some.inj same) (by decide)

theorem reads_list {items : List Json} (reads : ∀ j ∈ items, Reads j) : Reads (list items) where
  value n rest _ steps := by
    obtain ⟨n, rfl⟩ : ∃ k, n = k + 1 := ⟨n - 1, by omega⟩
    simp only [list, toChars, List.cons_append, List.append_assoc, List.nil_append,
      List.length_cons, List.length_append] at steps ⊢
    rw [value, skipSpace_cons rfl]
    by_cases none : items = []
    · subst none
      rfl
    · have more := head_itemChars none reads (']' :: rest)
      have all : elements n (itemChars items ++ ']' :: rest) = (items, some rest) :=
        elements_itemChars none reads (by simp only [List.length_nil] at steps; omega)
      simp only [if_neg more, all]
      rfl
  head := ⟨'[', _, rfl, rfl, by decide⟩

theorem reads_record {ms : List (String × Json)} (reads : ∀ m ∈ ms, Reads m.2) :
    Reads (record ms) where
  value n rest _ steps := by
    obtain ⟨n, rfl⟩ : ∃ k, n = k + 1 := ⟨n - 1, by omega⟩
    simp only [record, toChars, List.cons_append, List.append_assoc, List.nil_append,
      List.length_cons, List.length_append] at steps ⊢
    rw [value, skipSpace_cons rfl]
    by_cases none : ms = []
    · subst none
      rfl
    · have more := head_memberChars none ('\x7d' :: rest)
      have entries : members n (memberChars ms ++ '\x7d' :: rest) =
          (ms.map fun m => (some m.1, m.2), some rest) :=
        members_memberChars none reads (by simp only [List.length_nil] at steps; omega)
      have whole : ((ms.map fun m => (some m.1, m.2)).any (·.1.isNone)) = false := by simp
      simp only [if_neg more, entries, objectOf, named_map_some, whole]
      rfl
  head := ⟨'\x7b', _, rfl, rfl, by decide⟩

/-- Induction on what can be written. -/
theorem Written.reads {j : Json} (h : Written j) : Reads j := by
  induction h with
  | null => exact reads_null
  | bool b => exact reads_bool b
  | number h => exact reads_number h
  | string t => exact reads_string t
  | list _ ih => exact reads_list ih
  | record _ ih => exact reads_record ih

theorem Written.parse? {j : Json} (h : Written j) : parse? j.text = some j := by
  have nothing : Ends [] := fun c none => by cases none
  have read := h.reads.value _ [] nothing (Nat.le_refl _)
  rw [List.append_nil] at read
  rw [Json.parse?, Json.read, text, String.toList_ofList, readChars, read]
  rfl

end Values

section Lines

theorem newline_escape (c : Char) : '\n' ∉ escape c := by
  have digits : ∀ n < 32, '\n' ∉ hexPadded 4 n := by decide
  unfold escape
  iterate 7
    split
    · decide
  split
  · rename_i small
    simp [digits c.toNat small]
  · rename_i newline _ _ _ _ _
    simpa using Ne.symm newline

theorem newline_quote (t : String) : '\n' ∉ quote t.toList := by
  simp [quote, newline_escape]

theorem newline_itemChars {items : List Json} (single : ∀ j ∈ items, '\n' ∉ j.toChars) :
    '\n' ∉ itemChars items := by
  induction items with
  | nil => exact List.not_mem_nil
  | cons j js ih =>
    have first := single j List.mem_cons_self
    have others := ih fun i hi => single i (List.mem_cons_of_mem _ hi)
    cases js <;> simp_all [itemChars]

theorem newline_memberChars {ms : List (String × Json)} (single : ∀ m ∈ ms, '\n' ∉ m.2.toChars) :
    '\n' ∉ memberChars ms := by
  induction ms with
  | nil => exact List.not_mem_nil
  | cons m ms ih =>
    have first := single m List.mem_cons_self
    have others := ih fun i hi => single i (List.mem_cons_of_mem _ hi)
    have key := newline_quote m.1
    cases ms <;> simp_all [memberChars]

/-- What has been written stands on one line. -/
theorem Written.newline {j : Json} (h : Written j) : '\n' ∉ j.toChars := by
  induction h with
  | null => decide
  | bool b => cases b <;> decide
  | number h => exact h.newline
  | string t => exact newline_quote t
  | list _ ih => simpa [Json.list, toChars] using newline_itemChars ih
  | record _ ih => simpa [Json.record, toChars] using newline_memberChars ih

end Lines
end Bourse.Json
