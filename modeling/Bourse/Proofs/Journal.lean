import Bourse.Journal
import Bourse.Proofs.Market.Codecs
import Bourse.Text.Split

/-! What is written is read back, in each of the formats; and line for line from the files of a
journal, as no line has a newline of its own. -/
namespace Bourse

open Bourse.Text

section Lines

theorem splitAt_append {l : List Char} (whole : '\n' ∉ l) (rest : List Char) :
    splitAt '\n' (l ++ '\n' :: rest) = l :: splitAt '\n' rest := by
  induction l with
  | nil => rfl
  | cons c cs ih =>
    obtain ⟨other, whole⟩ := not_or.mp (mt List.mem_cons.mpr whole)
    rw [List.cons_append, splitAt, if_neg (Ne.symm other), ih whole]

/-- The lines one after another, each with a newline behind it. -/
def framed (ls : List String) : List Char := ls.flatMap fun l => l.toList ++ ['\n']

theorem framed_flatMap (files : List JournalFile) :
    framed (files.flatMap (·.lines)) = files.flatMap fun f => framed f.lines :=
  List.flatMap_assoc

theorem splitAt_framed {ls : List String} (whole : ∀ l ∈ ls, '\n' ∉ l.toList) :
    splitAt '\n' (framed ls) = ls.map String.toList ++ [[]] := by
  induction ls with
  | nil => rfl
  | cons l ls ih =>
    have others := ih fun x hx => whole x (List.mem_cons_of_mem _ hx)
    rw [framed] at others ⊢
    rw [List.flatMap_cons, List.append_assoc, List.singleton_append,
      splitAt_append (whole l List.mem_cons_self), others]
    rfl

/-- The events of a text that ends with a newline, or is empty, and has an event in each line. -/
def eventsOf? (cs : List Char) : Option (List Event) :=
  let parts := splitAt '\n' cs
  if parts.getLast? = some [] then
    parts.dropLast.mapM fun l => Event.codec.decode? (String.ofList l)
  else none

variable {es : List Event}

theorem mapM_decode? (fits : ∀ e ∈ es, e.Fits) :
    ((es.map Event.codec.encode).map String.toList).mapM
      (fun l => Event.codec.decode? (String.ofList l)) = some es := by
  induction es with
  | nil => rfl
  | cons e es ih =>
    have first := (fits e List.mem_cons_self).returns.decode?
    have others := ih fun x hx => fits x (List.mem_cons_of_mem _ hx)
    rw [List.map_cons, List.map_cons, List.mapM_cons, String.ofList_toList, first, others]
    rfl

theorem eventsOf?_framed (fits : ∀ e ∈ es, e.Fits) :
    eventsOf? (framed (es.map Event.codec.encode)) = some es := by
  have whole : ∀ l ∈ es.map Event.codec.encode, '\n' ∉ l.toList := by
    intro l hl
    obtain ⟨e, he, rfl⟩ := List.mem_map.mp hl
    exact (fits e he).returns.newline
  simp only [eventsOf?, splitAt_framed whole, List.getLast?_concat, if_true, List.dropLast_concat]
  exact mapM_decode? fits

end Lines

namespace Journal

section Files

variable {files : List JournalFile} {name line : String}

/-- The last of the files has this name, and no other has. -/
def IsLast (files : List JournalFile) (name : String) : Prop :=
  ∃ others lines, files = others ++ [⟨name, lines⟩] ∧ ∀ f ∈ others, f.name ≠ name

theorem extended_concat {others : List JournalFile} (free : ∀ f ∈ others, f.name ≠ name)
    (lines : List String) (line : String) :
    extended name line (others ++ [⟨name, lines⟩]) = others ++ [⟨name, lines ++ [line]⟩] := by
  have same : extended name line others = others :=
    (List.map_congr_left fun f hf => if_neg (free f hf)).trans (List.map_id others)
  rw [extended, List.map_append, ← extended, same]
  simp

theorem extended_of_isLast (last : IsLast files name) (line : String) :
    (extended name line files).flatMap (·.lines) = files.flatMap (·.lines) ++ [line] ∧
      IsLast (extended name line files) name := by
  obtain ⟨others, lines, rfl, free⟩ := last
  rw [extended_concat free]
  exact ⟨by simp, others, lines ++ [line], rfl, free⟩

theorem name_of_mem_extended {f : JournalFile} (mem : f ∈ extended name line files) :
    ∃ g ∈ files, g.name = f.name := by
  obtain ⟨g, hg, rfl⟩ := List.mem_map.mp mem
  refine ⟨g, hg, ?_⟩
  split <;> rfl

theorem emptied_of_free (free : ∀ f ∈ files, f.name ≠ name) :
    emptied name files = files ++ [⟨name, []⟩] := by
  rw [emptied, List.filter_eq_self.mpr fun f hf => bne_iff_ne.mpr (free f hf)]

end Files

/-- The journal after some events, each written at its time. -/
def writeAll (j : Journal) (es : List (Event × Instant)) : Journal :=
  es.foldl (fun j e => (j.write e.1 e.2).1) j

/-- A file opened now does not take the place of another. -/
def Free (j : Journal) (now : Instant) : Prop :=
  (j.current.filter fun c => c.written < j.perFile) = none →
    ∀ f ∈ j.folder.getD [], f.name ≠ fileName now

/-- No file takes the place of another while the events are written. -/
def AllFree : Journal → List (Event × Instant) → Prop
  | _, [] => True
  | j, e :: es => j.Free e.2 ∧ AllFree (j.write e.1 e.2).1 es

section Names

variable {j : Journal} {e : Event} {now : Instant}

theorem name_of_mem_ready {k : Journal} {c : OpenFile} (ok : j.ready now = .ok (k, c))
    {f : JournalFile} (mem : f ∈ k.folder.getD []) :
    f.name = fileName now ∨ f ∈ j.folder.getD [] := by
  unfold ready at ok
  split at ok
  · cases ok
    exact .inr mem
  split at ok
  · cases ok
  · rename_i files folder
    cases ok
    rw [Option.getD_some, emptied, List.mem_append, List.mem_filter, List.mem_singleton] at mem
    obtain ⟨old, -⟩ | rfl := mem
    · rw [folder]
      exact .inr old
    · exact .inl rfl

theorem name_of_mem_write {f : JournalFile} (mem : f ∈ (j.write e now).1.folder.getD []) :
    f.name = fileName now ∨ ∃ g ∈ j.folder.getD [], g.name = f.name := by
  cases ok : j.ready now with
  | error =>
    simp only [write, ok] at mem
    exact .inr ⟨f, mem, rfl⟩
  | ok r =>
    obtain ⟨k, c⟩ := r
    obtain ⟨g, hg, same⟩ : ∃ g ∈ k.folder.getD [], g.name = f.name := by
      simp only [write, ok] at mem
      split at mem
      · rw [show [] = extended c.name (Event.codec.encode e) [] from rfl, Option.getD_map] at mem
        exact name_of_mem_extended mem
      · exact ⟨f, mem, rfl⟩
    obtain new | old := name_of_mem_ready ok hg
    · exact .inl (same ▸ new)
    · exact .inr ⟨g, old, same⟩

/-- Events written under different names, none of which is taken, do not replace a file. -/
theorem allFree_of_nodup {es : List (Event × Instant)} (apart : (es.map (fileName ·.2)).Nodup)
    (free : ∀ f ∈ j.folder.getD [], f.name ∉ es.map (fileName ·.2)) : j.AllFree es := by
  induction es generalizing j with
  | nil => trivial
  | cons e es ih =>
    obtain ⟨other, apart⟩ := List.nodup_cons.mp apart
    refine ⟨fun _ f hf same => free f hf (same ▸ List.mem_cons_self), ih apart fun f hf => ?_⟩
    obtain same | ⟨g, hg, same⟩ := name_of_mem_write hf
    · rw [same]
      exact other
    · rw [← same]
      exact fun mem => free g hg (List.mem_cons_of_mem _ mem)

end Names

/-- The files hold these lines, and what is being written is the last of them. -/
def Holds (j : Journal) (lines : List String) : Prop :=
  ∃ files, j.folder = some files ∧ files.flatMap (·.lines) = lines ∧
    ∀ c ∈ j.current, c.linked = true ∧ IsLast files c.name

variable {j : Journal} {lines : List String}

theorem Holds.ready (h : j.Holds lines) {now : Instant} (free : j.Free now) :
    ∃ k c files, j.ready now = .ok (k, c) ∧ k.folder = some files ∧
      files.flatMap (·.lines) = lines ∧ c.linked = true ∧ IsLast files c.name := by
  obtain ⟨files, folder, held, last⟩ := h
  unfold Journal.ready
  cases current : j.current.filter fun c => c.written < j.perFile with
  | some c =>
    obtain ⟨linked, last⟩ := last c (Option.filter_eq_some_iff.mp current).1
    exact ⟨j, c, files, rfl, folder, held, linked, last⟩
  | none =>
    have free := free current
    rw [folder, Option.getD_some] at free
    rw [folder]
    refine ⟨_, _, _, rfl, congrArg some (emptied_of_free free), by simpa using held, rfl, ?_⟩
    exact ⟨files, [], rfl, free⟩

theorem Holds.write (h : j.Holds lines) {now : Instant} (free : j.Free now) (e : Event) :
    (j.write e now).1.Holds (lines ++ [Event.codec.encode e]) := by
  obtain ⟨k, c, files, ready, folder, held, linked, last⟩ := h.ready free
  obtain ⟨more, last⟩ := extended_of_isLast last (Event.codec.encode e)
  refine ⟨extended c.name (Event.codec.encode e) files, ?_, ?_, ?_⟩
  · simp [Journal.write, ready, folder, linked]
  · rw [more, held]
  · rintro o ho
    simp only [Journal.write, ready, Option.mem_some_iff] at ho
    subst ho
    exact ⟨linked, last⟩

theorem Holds.writeAll {es : List (Event × Instant)} (h : j.Holds lines) (free : j.AllFree es) :
    (j.writeAll es).Holds (lines ++ es.map (Event.codec.encode ·.1)) := by
  induction es generalizing j lines with
  | nil => simpa [Journal.writeAll] using h
  | cons e es ih =>
    have all := ih (h.write free.1 e.1) free.2
    rw [List.append_assoc] at all
    exact all

end Journal

/-- In each format every value is read back from its one line, and the events of a journal from the
text of its files. Of an order request the price has the same value and scale. -/
theorem written_and_read_back :
    Order.codec.Faithful Order.Fits Eq ∧ Trade.codec.Faithful Trade.Fits Eq ∧
    Event.codec.Faithful Event.Fits Eq ∧ Depth.codec.Faithful Depth.Fits Eq ∧
    OrderRequest.codec.Faithful (·.quantity ≤ maxCount) OrderRequest.Same ∧
    OrderRequest.bareCodec.Faithful (·.quantity ≤ maxCount) OrderRequest.Same ∧
    (∀ es : List Event, (∀ e ∈ es, e.Fits) →
      eventsOf? (framed (es.map Event.codec.encode)) = some es) ∧
    ∀ directory perFile, ∃ j, Journal.create directory .nothing perFile = .ok j ∧
      ∀ es : List (Event × Instant), (∀ e ∈ es, e.1.Fits) → j.AllFree es →
        ∃ files, (j.writeAll es).folder = some files ∧
          eventsOf? (files.flatMap fun f => framed f.lines) = some (es.map (·.1)) := by
  refine ⟨Codec.faithful_of_returns fun _ => Order.Fits.returns,
    Codec.faithful_of_returns fun _ => Trade.Fits.returns,
    Codec.faithful_of_returns fun _ => Event.Fits.returns,
    Codec.faithful_of_returns fun _ => Depth.Fits.returns,
    OrderRequest.faithful Codec.returns_decimal, OrderRequest.faithful Codec.returns_bareDecimal,
    fun _ => eventsOf?_framed, ?_⟩
  intro directory perFile
  refine ⟨_, rfl, fun es fits free => ?_⟩
  have start : Journal.Holds ⟨directory, max perFile 1, some [], none⟩ [] := ⟨[], rfl, rfl, nofun⟩
  obtain ⟨files, folder, held, -⟩ := start.writeAll free
  have all : ∀ e ∈ es.map (·.1), e.Fits := by
    intro e he
    obtain ⟨x, hx, rfl⟩ := List.mem_map.mp he
    exact fits x hx
  have read := eventsOf?_framed all
  rw [List.map_map] at read
  refine ⟨files, folder, ?_⟩
  rw [← framed_flatMap, held]
  exact read

theorem written_and_read_back_of_controls :
    let price : Price := ⟨⟨false, 1, 28, by decide, by decide⟩, rfl, .inr (by decide)⟩
    let first : Instant := ⟨-62167219200, 1000⟩
    let last : Instant := ⟨253402300799, 999999999⟩
    let o : Order := ⟨⟨"\"\\\n\u0001é"⟩, .sell, price, maxCount, 0, .filled, maxCount, first, last⟩
    let r : OrderRequest := ⟨some "\n", "\t", ⟨true, 0, 28, by decide, by decide⟩, maxCount⟩
    Order.codec.decode? (Order.codec.encode o) = some o ∧ '\n' ∉ (Order.codec.encode o).toList ∧
    (∃ s, OrderRequest.bareCodec.decode? (OrderRequest.bareCodec.encode r) = some s ∧ r.Same s) ∧
    ∃ j files, Journal.create "events" .nothing 0 = .ok j ∧
      (j.writeAll [(.added o first, first), (.cancelled o last, last)]).folder = some files ∧
      eventsOf? (files.flatMap fun f => framed f.lines) =
        some [.added o first, .cancelled o last] := by
  intro price first last o r
  have plain : first.Plain := ⟨by decide, by decide, by decide⟩
  have plain' : last.Plain := ⟨by decide, by decide, by decide⟩
  have fits : o.Fits := ⟨Nat.le_refl maxCount, Nat.zero_le _, Nat.le_refl maxCount, plain, plain'⟩
  obtain ⟨order, -, -, -, -, request, -, journal⟩ := written_and_read_back
  obtain ⟨_, back, rfl⟩ := order.back o fits
  obtain ⟨j, created, all⟩ := journal "events" 0
  obtain rfl := Except.ok.inj created
  have names : Journal.fileName first ≠ Journal.fileName last := by decide
  obtain ⟨files, folder, read⟩ := all [(.added o first, first), (.cancelled o last, last)]
    (by
      rintro e he
      simp only [List.mem_cons, List.not_mem_nil, or_false] at he
      obtain rfl | rfl := he
      · exact .added fits plain
      · exact .cancelled fits plain')
    (Journal.allFree_of_nodup (List.pairwise_pair.mpr names) (List.forall_mem_nil _))
  exact ⟨back, order.line o fits, request.back r (Nat.le_refl maxCount), _, files, created, folder,
    read⟩

end Bourse
