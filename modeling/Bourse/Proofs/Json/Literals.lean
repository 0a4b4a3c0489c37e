import Bourse.Json.Reader
import Mathlib.Data.List.Infix
import Mathlib.Data.List.TakeWhile

/-! The literals of numbers. A value may be read from a text that goes wrong further on; even then
every number in it stands in the text, character by character. -/
namespace Bourse.Json

open Bourse.Text

section Parts

variable {cs l r : List Char}

theorem append_of_digitsAfter {mark : List Char} (read : digitsAfter mark cs = some (l, r)) :
    mark ++ cs = l ++ r := by
  have parts := List.takeWhile_append_dropWhile (p := Char.isDigit) (l := cs)
  unfold digitsAfter at read
  split at read
  · cases read
  · cases read
    rw [List.append_assoc, parts]

theorem append_of_wholePart (read : wholePart cs = some (l, r)) : cs = l ++ r := by
  have parts := List.takeWhile_append_dropWhile (p := Char.isDigit) (l := cs)
  unfold wholePart at read
  split at read
  · cases read
  · rename_i digits
    split at read
    · cases read
    · cases read
      rw [← digits, parts]

theorem append_of_fractionPart (read : fractionPart cs = some (l, r)) : cs = l ++ r := by
  unfold fractionPart at read
  split at read
  · exact append_of_digitsAfter read
  · cases read
    rfl

theorem append_of_exponentPart (read : exponentPart cs = some (l, r)) : cs = l ++ r := by
  unfold exponentPart at read
  split at read
  · split at read
    · split at read
      · exact append_of_digitsAfter read
      · exact append_of_digitsAfter read
      · exact append_of_digitsAfter read
    · cases read
      rfl
  · cases read
    rfl

/-- The literal of a number is what the text begins with. -/
theorem append_of_numeral (read : numeral cs = some (l, r)) : cs = l ++ r := by
  obtain ⟨⟨whole, afterWhole⟩, first, read⟩ := Option.bind_eq_some_iff.mp read
  obtain ⟨⟨fraction, afterFraction⟩, second, read⟩ := Option.bind_eq_some_iff.mp read
  obtain ⟨⟨exponent, rest⟩, third, read⟩ := Option.bind_eq_some_iff.mp read
  cases read
  have body := append_of_wholePart first
  rw [append_of_fractionPart second, append_of_exponentPart third] at body
  split at body
  · simpa using body
  · simpa using body

theorem suffix_of_pieces {ps : List Piece} (read : pieces cs = some (ps, r)) : r <:+ cs := by
  fun_induction pieces cs generalizing ps with
  | case2 cs =>
    cases read
    exact List.suffix_cons _ _
  | case4 h₁ h₂ h₃ h₄ cs _ _ _ ih =>
    obtain ⟨⟨ps, r⟩, inner, same⟩ := Option.map_eq_some_iff.mp read
    cases same
    exact (ih inner).trans (List.suffix_append ['\\', 'u', h₁, h₂, h₃, h₄] cs)
  | case7 e cs _ _ _ _ ih =>
    obtain ⟨⟨ps, r⟩, inner, same⟩ := Option.map_eq_some_iff.mp read
    cases same
    exact (ih inner).trans (List.suffix_append ['\\', e] cs)
  | case10 c cs _ _ _ ih =>
    obtain ⟨⟨ps, r⟩, inner, same⟩ := Option.map_eq_some_iff.mp read
    cases same
    exact (ih inner).trans (List.suffix_cons c cs)
  | _ => cases read

theorem suffix_of_quoted {t : Option String} (read : quoted cs = some (t, r)) : r <:+ cs := by
  obtain ⟨⟨ps, r⟩, inner, same⟩ := Option.map_eq_some_iff.mp read
  cases same
  exact suffix_of_pieces inner

theorem skipSpace_suffix (cs : List Char) : skipSpace cs <:+ cs := List.dropWhile_suffix _

end Parts

section Values

/-- Somewhere in the value this literal stands for a number. -/
inductive Mentions (t : String) : Json → Prop where
  | number : Mentions t (.number t)
  | item {closed : Bool} {items : List Json} {j : Json} : j ∈ items → Mentions t j →
      Mentions t (.array closed items)
  | member {ending : Ending} {ms : List (String × Json)} {m : String × Json} : m ∈ ms →
      Mentions t m.2 → Mentions t (.object ending ms)

/-- Of a text some values were read, and this is what follows them. -/
structure Read (cs : List Char) (js : List Json) (rest : Option (List Char)) : Prop where
  rest : ∀ r, rest = some r → r <:+ cs
  verbatim : ∀ j ∈ js, ∀ t, Mentions t j → t.toList <:+: cs

variable {cs ds r : List Char} {js ks : List Json} {j : Json} {rest : Option (List Char)}

theorem Read.of_suffix (read : Read ds js rest) (suffix : ds <:+ cs) : Read cs js rest where
  rest r same := (read.rest r same).trans suffix
  verbatim j hj t there := (read.verbatim j hj t there).trans suffix.isInfix

theorem Read.append (first : Read cs js (some r)) (more : Read r ks rest) :
    Read cs (js ++ ks) rest where
  rest ds same := (more.rest ds same).trans (first.rest r rfl)
  verbatim j hj t there := by
    rcases List.mem_append.mp hj with before | behind
    · exact first.verbatim j before t there
    · exact (more.verbatim j behind t there).trans (first.rest r rfl).isInfix

/-- What was read is the last, or what follows it is looked at no further. -/
theorem Read.ended (read : Read cs js (some r))
    (stop : rest = none ∨ ∃ ds, rest = some ds ∧ ds <:+ r) : Read cs js rest where
  rest ds same := by
    rcases stop with rfl | ⟨es, rfl, suffix⟩
    · cases same
    · exact Option.some.inj same ▸ suffix.trans (read.rest r rfl)
  verbatim := read.verbatim

theorem Read.of_plain (plain : ∀ t, ¬ Mentions t j) (suffix : ∀ r, rest = some r → r <:+ cs) :
    Read cs [j] rest where
  rest := suffix
  verbatim i hi t there := by
    rw [List.mem_singleton.mp hi] at there
    exact absurd there (plain t)

theorem read_nothing (cs : List Char) : Read cs [] none where
  rest _ same := nomatch same
  verbatim _ hj := nomatch hj

theorem read_broken (cs : List Char) : Read cs [.broken] none :=
  .of_plain (fun _ there => nomatch there) fun _ none => nomatch none

/-- What is mentioned in the array or object is mentioned in one of its parts. -/
theorem Read.within (read : Read cs js rest) (parts : ∀ t, Mentions t j → ∃ i ∈ js, Mentions t i) :
    Read cs [j] rest where
  rest := read.rest
  verbatim i hi t there := by
    rw [List.mem_singleton.mp hi] at there
    obtain ⟨i, hi, there⟩ := parts t there
    exact read.verbatim i hi t there

theorem Read.array (read : Read cs js rest) (closed : Bool) : Read cs [.array closed js] rest := by
  apply read.within
  intro t there
  cases there with
  | item hi there => exact ⟨_, hi, there⟩

theorem mem_of_mem_named {entries : List (Option String × Json)} {m : String × Json}
    (here : m ∈ named entries) : m.2 ∈ entries.map (·.2) := by
  induction entries with
  | nil => cases here
  | cons e entries ih =>
    obtain ⟨_ | k, i⟩ := e
    · cases here
    · rcases List.mem_cons.mp here with rfl | here
      · exact List.mem_cons_self
      · exact List.mem_cons_of_mem _ (ih here)

theorem Read.object {entries : List (Option String × Json)}
    (read : Read cs (entries.map (·.2)) rest) (whole : Bool) :
    Read cs [objectOf entries whole] rest := by
  apply read.within
  intro t there
  cases there with
  | member hm there => exact ⟨_, mem_of_mem_named hm, there⟩

theorem read_plainValue (cs : List Char) : Read cs [(plainValue cs).1] (plainValue cs).2 := by
  have rest (k : Nat) : ∀ r, some (cs.drop k) = some r → r <:+ cs := by
    rintro r ⟨⟩
    exact List.drop_suffix k cs
  unfold plainValue
  split
  · exact .of_plain (fun _ there => nomatch there) (rest 4)
  · split
    · exact .of_plain (fun _ there => nomatch there) (rest 4)
    · split
      · exact .of_plain (fun _ there => nomatch there) (rest 5)
      · split
        · rename_i literal r read
          obtain rfl := append_of_numeral read
          constructor
          · rintro _ ⟨⟩
            exact List.suffix_append _ _
          · rintro j hj t there
            rw [List.mem_singleton.mp hj] at there
            cases there
            rw [String.toList_ofList]
            exact (List.prefix_append _ _).isInfix
        · exact read_broken cs

theorem read_skipSpace {c : Char} (next : skipSpace cs = c :: r) : r <:+ cs :=
  (List.suffix_cons c r).trans (next ▸ skipSpace_suffix cs)

variable {n : Nat}

theorem read_value (items : ∀ cs, Read cs (elements n cs).1 (elements n cs).2)
    (entries : ∀ cs, Read cs ((members n cs).1.map (·.2)) (members n cs).2) (cs : List Char) :
    Read cs [(value (n + 1) cs).1] (value (n + 1) cs).2 := by
  have none {j : Json} (plain : ∀ t, ¬ Mentions t j) {ds : List Char} (suffix : ds <:+ cs) :
      Read cs [j] (some ds) := .of_plain plain fun _ same => Option.some.inj same ▸ suffix
  rw [value]
  split
  · exact read_broken cs
  · rename_i c r next
    have behind : r <:+ cs := read_skipSpace next
    have closing : (skipSpace r).tail <:+ cs :=
      ((List.tail_suffix _).trans (skipSpace_suffix r)).trans behind
    split
    · split
      · rename_i quoted
        refine none (fun t there => ?_) ((suffix_of_quoted quoted).trans behind)
        cases there
      · rename_i quoted
        refine none (fun t there => ?_) ((suffix_of_quoted quoted).trans behind)
        cases there
      · exact read_broken cs
    · split
      · split
        · refine none (fun t there => ?_) closing
          cases there with
          | item hi _ => cases hi
        · exact ((items r).array _).of_suffix behind
      · split
        · split
          · refine none (fun t there => ?_) closing
            cases there with
            | member hm _ => cases hm
          · exact ((entries r).object _).of_suffix behind
        · exact (read_plainValue (c :: r)).of_suffix (next ▸ skipSpace_suffix cs)

theorem read_elements (one : ∀ cs, Read cs [(value n cs).1] (value n cs).2)
    (items : ∀ cs, Read cs (elements n cs).1 (elements n cs).2) (cs : List Char) :
    Read cs (elements (n + 1) cs).1 (elements (n + 1) cs).2 := by
  have first := one cs
  rw [elements]
  split
  · rename_i v broken
    rw [broken] at first
    exact first
  · rename_i v r more
    rw [more] at first
    split
    · rename_i ds next
      exact first.ended (.inr ⟨ds, rfl, read_skipSpace next⟩)
    · rename_i ds next
      exact first.append ((items ds).of_suffix (read_skipSpace next))
    · exact first.ended (.inl rfl)

theorem read_members (one : ∀ cs, Read cs [(value n cs).1] (value n cs).2)
    (entries : ∀ cs, Read cs ((members n cs).1.map (·.2)) (members n cs).2) (cs : List Char) :
    Read cs ((members (n + 1) cs).1.map (·.2)) (members (n + 1) cs).2 := by
  rw [members]
  split
  · rename_i ds next
    split
    · rename_i k afterKey key
      have name := (suffix_of_quoted key).trans (read_skipSpace next)
      split
      · rename_i es colon
        have first := (one es).of_suffix ((read_skipSpace colon).trans name)
        split
        · rename_i v broken
          rw [broken] at first
          exact first
        · rename_i v r more
          rw [more] at first
          split
          · rename_i fs brace
            exact first.ended (.inr ⟨fs, rfl, read_skipSpace brace⟩)
          · rename_i fs comma
            exact first.append ((entries fs).of_suffix (read_skipSpace comma))
          · exact first.ended (.inl rfl)
      · exact read_broken cs
    · exact read_nothing cs
  · exact read_nothing cs

/-- Whatever is read of a text, the literals of its numbers stand in the text. -/
theorem read_all (n : Nat) (cs : List Char) : Read cs [(value n cs).1] (value n cs).2 ∧
    Read cs (elements n cs).1 (elements n cs).2 ∧
    Read cs ((members n cs).1.map (·.2)) (members n cs).2 := by
  induction n generalizing cs with
  | zero => exact ⟨read_broken cs, read_nothing cs, read_nothing cs⟩
  | succ n ih => exact ⟨read_value (fun cs => (ih cs).2.1) (fun cs => (ih cs).2.2) cs,
      read_elements (fun cs => (ih cs).1) (fun cs => (ih cs).2.1) cs,
      read_members (fun cs => (ih cs).1) (fun cs => (ih cs).2.2) cs⟩

/-- A literal that a text is read to mention stands in the text. -/
theorem infix_of_mentions {s t : String} (there : Mentions t (Json.read s).1) :
    t.toList <:+: s.toList :=
  (read_all _ s.toList).1.verbatim _ (List.mem_singleton_self _) t there

end Values

end Bourse.Json
