import Bourse.Json.Codec
import Bourse.Proofs.Decimal.Text
import Bourse.Proofs.Json.Reading

/-! Codecs that lose nothing: what has been written is read back, by every way there is to make a
codec from others. -/
namespace Bourse

namespace Codec

open Bourse.Text

variable {α β : Type} {c : Codec α} {a b : α}

/-- The value `a` is written and then read as `b`. -/
structure Returns (c : Codec α) (a b : α) : Prop where
  written : (c.write a).Written
  read : c.read (c.write a) = .ok b

theorem Returns.decode? (h : c.Returns a b) : c.decode? (c.encode a) = some b := by
  rw [Codec.decode?, encode, h.written.parse?, Option.bind_some, h.read]
  rfl

theorem Returns.newline (h : c.Returns a b) : '\n' ∉ (c.encode a).toList := by
  rw [encode, Json.text, String.toList_ofList]
  exact h.written.newline

theorem returns_string (t : String) : string.Returns t t := ⟨.string t, rfl⟩

theorem Returns.through {x y : β} {write : β → α} {read : α → Option β}
    (h : c.Returns (write x) a) (back : read a = some y) :
    (c.through write read).Returns x y where
  written := h.written
  read := by simp only [Codec.through, h.read, back]

theorem returns_none (c : Codec α) : (option c).Returns none none := ⟨.null, rfl⟩

theorem Returns.some (h : c.Returns a b) (solid : c.write a ≠ .null) :
    (option c).Returns (some a) (some b) where
  written := h.written
  read := by
    have write : (option c).write (.some a) = c.write a := rfl
    have read := h.read
    rw [write]
    cases text : c.write a with
    | null => exact absurd text solid
    | _ => simpa [option, text, Except.map] using congrArg (Except.map Option.some) (text ▸ read)

theorem returns_list {as : List α} (h : ∀ a ∈ as, c.Returns a a) : (list c).Returns as as where
  written := .list fun j hj => by
    obtain ⟨a, ha, rfl⟩ := List.mem_map.mp hj
    exact (h a ha).written
  read := by
    have items : readItems c (as.map c.write) = .ok as := by
      induction as with
      | nil => rfl
      | cons a as ih =>
        rw [List.map_cons, readItems, (h a List.mem_cons_self).read,
          ih fun x hx => h x (List.mem_cons_of_mem _ hx)]
        rfl
    simp only [list, Json.list, items, if_true]

theorem returns_word {all : List α} {name : α → String}
    (found : all.find? (fun b => name b == name a) = .some a) : (word all name).Returns a a where
  written := .string _
  read := by simp only [word, word.pick, found]

theorem returns_count {n : Nat} (fits : n ≤ maxCount) : count.Returns n n where
  written := .number (by
    rw [String.toList_ofList]
    exact Json.numeral_decimal n)
  read := by
    have value : natural? (Text.decimal n) = .some n := by
      rw [decimal_eq_padded]
      exact natural?_padded 0 n
    simp only [count, Json.nat, String.toList_ofList, value, if_pos fits]

theorem returns_decimal (d : Decimal) : Codec.decimal.Returns d d.unsignedZero where
  written := .string _
  read := by simp only [Codec.decimal, decimal.ofNumeral, d.ofText?_text]

theorem returns_bareDecimal (d : Decimal) : Codec.bareDecimal.Returns d d.unsignedZero where
  written := .number (by
    rw [Decimal.text, String.toList_ofList, d.toChars_eq]
    exact .mk d.negative d.isDigit_of_mem_wholeDigits d.isDigit_of_mem_fractionDigits
      d.wholeDigits_ne_nil d.wholeDigits_zero)
  read := by simp only [bareDecimal, Codec.decimal, decimal.ofNumeral, d.ofText?_text]

end Codec

namespace Fields

variable {α β : Type}

def names {β : Type} : Fields β → List String
  | nil => []
  | cons name _ rest => name :: rest.names

/-- Every field is written and then read as here. -/
def Returns {β : Type} : Fields β → β → β → Prop
  | nil, _, _ => True
  | cons _ codec rest, (a, x), (b, y) => codec.Returns a b ∧ rest.Returns x y

theorem map_fst_write {β : Type} (fields : Fields β) (x : β) :
    (fields.write x).map (·.1) = fields.names := by
  induction fields with
  | nil => rfl
  | cons name codec rest ih =>
    obtain ⟨a, x⟩ := x
    rw [write, List.map_cons, ih, names]

theorem Returns.written {β : Type} {fields : Fields β} {x y : β} (h : fields.Returns x y) :
    ∀ m ∈ fields.write x, m.2.Written := by
  induction fields with
  | nil => exact fun m hm => nomatch hm
  | cons name codec rest ih =>
    obtain ⟨a, x⟩ := x
    obtain ⟨b, y⟩ := y
    intro m hm
    rcases List.mem_cons.mp hm with rfl | hm
    · exact h.1.written
    · exact ih h.2 m hm

theorem Returns.check? {β : Type} {fields : Fields β} {x y : β} (h : fields.Returns x y)
    (distinct : fields.names.Nodup) :
    ∀ m ∈ fields.write x, fields.check? m.1 m.2 = some (.ok ()) := by
  induction fields with
  | nil => exact fun m hm => nomatch hm
  | cons name codec rest ih =>
    obtain ⟨a, x⟩ := x
    obtain ⟨b, y⟩ := y
    obtain ⟨fresh, distinct⟩ := List.nodup_cons.mp distinct
    intro m hm
    rcases List.mem_cons.mp hm with rfl | hm
    · rw [Fields.check?, if_pos rfl, h.1.read]
      rfl
    · have other : name ≠ m.1 := by
        intro same
        rw [← map_fst_write rest x] at fresh
        exact fresh (List.mem_map.mpr ⟨m, hm, same.symm⟩)
      rw [Fields.check?, if_neg other]
      exact ih h.2 distinct m hm

theorem firstFault_none {β : Type} {fields : Fields β} {ms : List (String × Json)}
    (fine : ∀ m ∈ ms, fields.check? m.1 m.2 = some (.ok ())) {seen : List String}
    (fresh : ∀ m ∈ ms, m.1 ∉ seen) (distinct : (ms.map (·.1)).Nodup) :
    fields.firstFault seen ms = none := by
  induction ms generalizing seen with
  | nil => rfl
  | cons m ms ih =>
    obtain ⟨apart, distinct⟩ := List.nodup_cons.mp distinct
    have unseen : ¬seen.contains m.1 = true := by
      rw [List.contains_iff_mem]
      exact fresh m List.mem_cons_self
    simp only [firstFault, fine m List.mem_cons_self, if_neg unseen]
    refine ih (fun x hx => fine x (List.mem_cons_of_mem _ hx)) (fun x hx again => ?_) distinct
    rcases List.mem_cons.mp again with same | again
    · exact apart (List.mem_map.mpr ⟨x, hx, same⟩)
    · exact fresh x (List.mem_cons_of_mem _ hx) again

theorem lookup_of_mem {ms : List (String × Json)} (distinct : (ms.map (·.1)).Nodup)
    {m : String × Json} (hm : m ∈ ms) : ms.lookup m.1 = some m.2 := by
  induction ms with
  | nil => cases hm
  | cons x ms ih =>
    obtain ⟨apart, distinct⟩ := List.nodup_cons.mp distinct
    rcases List.mem_cons.mp hm with rfl | hm
    · exact List.lookup_cons_self
    · have other : (m.1 == x.1) = false := by
        rw [beq_eq_false_iff_ne]
        exact fun same => apart (List.mem_map.mpr ⟨m, hm, same⟩)
      rw [List.lookup_cons, other]
      exact ih distinct hm

theorem Returns.build {β : Type} {fields : Fields β} {x y : β} (h : fields.Returns x y)
    {ms : List (String × Json)} (there : ∀ m ∈ fields.write x, ms.lookup m.1 = some m.2) :
    fields.build ms = .ok y := by
  induction fields with
  | nil => rfl
  | cons name codec rest ih =>
    obtain ⟨a, x⟩ := x
    obtain ⟨b, y⟩ := y
    have first : ms.lookup name = some (codec.write a) := there _ List.mem_cons_self
    have others := ih h.2 fun m hm => there m (List.mem_cons_of_mem _ hm)
    simp only [Fields.build, first, h.1.read, others]
    rfl

/-- A record of fields of different names is read back if all of them are. -/
theorem Returns.record {fields : Fields β} {split : α → β} {join : β → α} {a b : α} {y : β}
    (h : fields.Returns (split a) y) (whole : join y = b) (distinct : fields.names.Nodup) :
    (Codec.record fields split join).Returns a b where
  written := .record h.written
  read := by
    have keys : ((fields.write (split a)).map (·.1)).Nodup := map_fst_write fields _ ▸ distinct
    have faultless : fields.firstFault [] (fields.write (split a)) = none :=
      firstFault_none (h.check? distinct) (fun _ _ => List.not_mem_nil) keys
    have built : fields.build (fields.write (split a)) = .ok y :=
      h.build fun m hm => lookup_of_mem keys hm
    simp only [Codec.record, Json.record, Fields.read, readMembers, faultless, built]
    exact congrArg Except.ok whole

end Fields

theorem Codec.returns_record {α β : Type} {fields : Fields β} {split : α → β} {join : β → α} {a : α}
    (h : fields.Returns (split a) (split a)) (whole : join (split a) = a)
    (distinct : fields.names.Nodup) : (Codec.record fields split join).Returns a a :=
  h.record whole distinct

end Bourse
