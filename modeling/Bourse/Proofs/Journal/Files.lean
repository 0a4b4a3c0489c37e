import Bourse.Proofs.Journal
import Bourse.Proofs.Journal.Names
import Mathlib.Data.List.Flatten

/-! The files of a journal. Each is full before the next one is opened, and their names are in the
order of their opening. But a file that is opened in the same microsecond as the one before takes
its place, and with it are gone the events that were written to the other. -/
namespace Bourse.Journal

variable {j : Journal} {files fs : List JournalFile} {f g : JournalFile}
  {es : List (Event × Instant)} {e : Event × Instant} {perFile : Nat}

def line (e : Event × Instant) : String := Event.codec.encode e.1

/-- The files as they are opened one after the other, each with all that is written to it. -/
def opened (perFile : Nat) : List (Event × Instant) → List JournalFile
  | [] => []
  | e :: es =>
    ⟨fileName e.2, line e :: (es.take (perFile - 1)).map line⟩ ::
      opened perFile (es.drop (perFile - 1))
termination_by es => es.length
decreasing_by
  rw [List.length_drop, List.length_cons]
  omega

/-- A file in the place of the one of its name, if there is one. -/
def put (files : List JournalFile) (f : JournalFile) : List JournalFile :=
  files.filter (·.name != f.name) ++ [f]

/-- Those of the files whose place none of the later ones takes. -/
def standing : List JournalFile → List JournalFile
  | [] => []
  | f :: fs => if fs.all (f.name != ·.name) then f :: standing fs else standing fs

section Standing

/-- Files put into a directory one after the other: each is replaced by a later one of its name. -/
theorem foldl_put (files fs : List JournalFile) : fs.foldl put files =
    files.filter (fun f => fs.all (f.name != ·.name)) ++ standing fs := by
  induction fs generalizing files with
  | nil => simp [standing]
  | cons f fs ih =>
    rw [List.foldl_cons, ih, put, List.filter_append, List.filter_filter, standing,
      List.append_assoc]
    congr 1
    · simp [Bool.and_comm]
    · cases free : fs.all (f.name != ·.name) <;> simp [free]

theorem standing_concat (fs : List JournalFile) (f : JournalFile) :
    standing (fs ++ [f]) = (standing fs).filter (·.name != f.name) ++ [f] := by
  have all := foldl_put [] (fs ++ [f])
  rw [List.foldl_concat, foldl_put] at all
  exact all.symm

theorem standing_sublist (fs : List JournalFile) : (standing fs).Sublist fs := by
  induction fs with
  | nil => exact List.Sublist.refl _
  | cons f fs ih =>
    rw [standing]
    split
    · exact ih.cons_cons f
    · exact ih.cons f

theorem mem_dropLast_of_standing (mem : f ∈ (standing fs).dropLast) : f ∈ fs.dropLast := by
  rcases List.eq_nil_or_concat fs with rfl | ⟨fs, g, rfl⟩
  · exact mem
  · rw [List.concat_eq_append] at mem ⊢
    rw [standing_concat, List.dropLast_concat] at mem
    rw [List.dropLast_concat]
    exact (standing_sublist fs).mem (List.mem_of_mem_filter mem)

theorem standing_of_nodup (apart : (fs.map (·.name)).Nodup) : standing fs = fs := by
  induction fs with
  | nil => rfl
  | cons f fs ih =>
    obtain ⟨other, apart⟩ := List.nodup_cons.mp apart
    have free : fs.all (f.name != ·.name) = true :=
      List.all_eq_true.mpr fun g hg =>
        bne_iff_ne.mpr fun same => other (List.mem_map.mpr ⟨g, hg, same.symm⟩)
    rw [standing, if_pos free, ih apart]

theorem nodup_standing (fs : List JournalFile) : ((standing fs).map (·.name)).Nodup := by
  induction fs with
  | nil => exact List.nodup_nil
  | cons f fs ih =>
    rw [standing]
    split
    · rename_i free
      rw [List.map_cons, List.nodup_cons]
      refine ⟨fun mem => ?_, ih⟩
      obtain ⟨g, hg, same⟩ := List.mem_map.mp mem
      have other := List.all_eq_true.mp free g ((standing_sublist fs).mem hg)
      simp [same] at other
    · exact ih

/-- No line is lost only if no file is. -/
theorem eq_of_sublist_of_lines (part : files.Sublist fs) (some : ∀ f ∈ fs, f.lines ≠ [])
    (all : (files.flatMap (·.lines)).length = (fs.flatMap (·.lines)).length) : files = fs := by
  induction part with
  | slnil => rfl
  | @cons files fs f part ih =>
    have some := List.length_pos_iff.mpr (some f List.mem_cons_self)
    have fewer := (part.flatMap (·.lines)).length_le
    rw [List.flatMap_cons, List.length_append] at all
    omega
  | @cons_cons files fs f part ih =>
    rw [ih (fun g hg => some g (List.mem_cons_of_mem _ hg))
      (by simpa using all)]

end Standing

section Opened

variable {f : JournalFile}

theorem lines_opened (perFile : Nat) (es : List (Event × Instant)) :
    (opened perFile es).flatMap (·.lines) = es.map line := by
  induction es using opened.induct perFile with
  | case1 => simp [opened]
  | case2 e es ih =>
    rw [opened, List.flatMap_cons, ih, List.cons_append, ← List.map_append, List.take_append_drop]
    rfl

theorem names_opened (perFile : Nat) (es : List (Event × Instant)) :
    ((opened perFile es).map (·.name)).Sublist (es.map (fileName ·.2)) := by
  induction es using opened.induct perFile with
  | case1 => simp [opened]
  | case2 e es ih =>
    rw [opened, List.map_cons, List.map_cons]
    exact (ih.trans ((List.drop_sublist _ _).map _)).cons_cons _

theorem lines_ne_nil (mem : f ∈ opened perFile es) : f.lines ≠ [] := by
  induction es using opened.induct perFile with
  | case1 => simp [opened] at mem
  | case2 e es ih =>
    rw [opened, List.mem_cons] at mem
    rcases mem with rfl | mem
    · exact List.cons_ne_nil _ _
    · exact ih mem

theorem full_of_opened (mem : f ∈ (opened perFile es).dropLast) :
    f.lines.length = max perFile 1 := by
  induction es using opened.induct perFile with
  | case1 => simp [opened] at mem
  | case2 e es ih =>
    rw [opened] at mem
    cases rest : opened perFile (es.drop (perFile - 1)) with
    | nil => simp [rest] at mem
    | cons g fs =>
      rw [rest, List.dropLast_cons_cons, ← rest, List.mem_cons] at mem
      rcases mem with rfl | mem
      · -- events are left, so this file has all that it can take
        have long : perFile - 1 < es.length := by
          by_contra short
          rw [List.drop_eq_nil_of_le (by omega), opened] at rest
          cases rest
        simp only [List.length_cons, List.length_map, List.length_take]
        omega
      · exact ih mem

/-- So many events after the first one a file is opened again. -/
theorem getElem?_names (perFile i : Nat) (es : List (Event × Instant)) :
    ((opened perFile es).map (·.name))[i]? = (es.map (·.2))[i * max perFile 1]?.map fileName := by
  induction es using opened.induct perFile generalizing i with
  | case1 => simp [opened]
  | case2 e es ih =>
    cases i with
    | zero => simp [opened]
    | succ i =>
      have next : (i + 1) * max perFile 1 = perFile - 1 + i * max perFile 1 + 1 := by
        rw [Nat.succ_mul]
        omega
      rw [opened, List.map_cons, List.getElem?_cons_succ, ih, List.map_drop, List.getElem?_drop,
        next, List.map_cons, List.getElem?_cons_succ]

end Opened

section Writing

/-- The file that is being written takes events while there is room in it. -/
theorem writeAll_current {others : List JournalFile} {name : String} {lines : List String} {n : Nat}
    (folder : j.folder = some (others ++ [⟨name, lines⟩])) (free : ∀ f ∈ others, f.name ≠ name)
    (current : j.current = some ⟨name, true, n⟩) (room : n + es.length ≤ j.perFile) :
    j.writeAll es = { j with
      folder := some (others ++ [⟨name, lines ++ es.map line⟩])
      current := some ⟨name, true, n + es.length⟩ } := by
  induction es generalizing j lines n with
  | nil => simp [writeAll, ← folder, ← current]
  | cons e es ih =>
    rw [List.length_cons] at room
    have here : (j.current.filter fun c => c.written < j.perFile) = some ⟨name, true, n⟩ := by
      have less : n < j.perFile := by omega
      rw [current]
      exact if_pos (decide_eq_true less)
    have on : (j.write e.1 e.2).1 = { j with
        folder := some (others ++ [⟨name, lines ++ [line e]⟩])
        current := some ⟨name, true, n + 1⟩ } := by
      simp [Journal.write, ready, here, folder, extended_concat free, line]
    have all := ih (j := (j.write e.1 e.2).1) (by rw [on]) (by rw [on])
      (by simp only [on]; omega)
    rw [writeAll, List.foldl_cons, ← writeAll, all, on, List.append_assoc, List.length_cons,
      Nat.add_assoc, Nat.add_comm 1]
    rfl

theorem name_ne_of_mem {name : String} : ∀ f ∈ files.filter (·.name != name), f.name ≠ name := by
  intro f hf
  simpa using (List.mem_filter.mp hf).2

theorem write_opens (now : (j.current.filter fun c => c.written < j.perFile) = none)
    (folder : j.folder = some files) : (j.write e.1 e.2).1 = { j with
      folder := some (put files ⟨fileName e.2, [line e]⟩)
      current := some ⟨fileName e.2, true, 1⟩ } := by
  simp [Journal.write, ready, now, folder, emptied, extended_concat name_ne_of_mem, put, line]

theorem writeAll_opens (now : (j.current.filter fun c => c.written < j.perFile) = none)
    (folder : j.folder = some files) (room : es.length < j.perFile) :
    j.writeAll (e :: es) = { j with
      folder := some (put files ⟨fileName e.2, line e :: es.map line⟩)
      current := some ⟨fileName e.2, true, 1 + es.length⟩ } := by
  have opens := write_opens (e := e) now folder
  have more : (j.write e.1 e.2).1.writeAll es = _ :=
    writeAll_current (by rw [opens, put]) name_ne_of_mem (by rw [opens])
      (by simp only [opens]; omega)
  rw [writeAll, List.foldl_cons, ← writeAll, more, opens]
  rfl

/-- What a folder holds after some events: the files as they were opened, put there one after the
other. -/
theorem folder_writeAll (size : j.perFile = max perFile 1)
    (now : (j.current.filter fun c => c.written < j.perFile) = none)
    (folder : j.folder = .some files) (es : List (Event × Instant)) :
    (j.writeAll es).folder = .some ((opened perFile es).foldl put files) := by
  induction es using opened.induct perFile generalizing j files with
  | case1 => simpa [opened, writeAll] using folder
  | case2 e es ih =>
    have room : (es.take (perFile - 1)).length < j.perFile := by
      rw [List.length_take]
      omega
    have first := writeAll_opens (e := e) now folder room
    have parts : j.writeAll (e :: es) = (j.writeAll (e :: es.take (perFile - 1))).writeAll
        (es.drop (perFile - 1)) := by
      rw [writeAll, writeAll, writeAll, ← List.foldl_append, List.cons_append,
        List.take_append_drop]
    rw [parts, opened, List.foldl_cons]
    cases rest : es.drop (perFile - 1) with
    | nil =>
      rw [first, opened]
      rfl
    | cons e' es' =>
      have long : perFile - 1 < es.length := by
        by_contra short
        rw [List.drop_eq_nil_of_le (by omega)] at rest
        cases rest
      rw [← rest]
      apply ih
      · rw [first]
        exact size
      · rw [first]
        apply if_neg
        simp only [List.length_take, decide_eq_true_eq]
        omega
      · rw [first]

theorem write_ok (folder : j.folder = some files) (e : Event) (now : Instant) :
    (j.write e now).2 = .ok () := by
  cases current : j.current.filter fun c => c.written < j.perFile <;>
    simp [Journal.write, ready, current, folder]

end Writing

section Order

/-- The times at which files are opened are in different microseconds, each and the next. -/
def Apart (perFile : Nat) (times : List Instant) : Prop :=
  ∀ (i : Nat) (t u : Instant), times[i * max perFile 1]? = some t →
    times[(i + 1) * max perFile 1]? = some u → t.micros ≠ u.micros

variable (plain : ∀ e ∈ es, e.2.Plain) (onward : es.Pairwise fun a b => a.2.le b.2 = true)

include plain onward in
theorem names_onward (perFile : Nat) :
    ((opened perFile es).map (·.name)).Pairwise (· ≤ ·) := by
  refine List.Pairwise.sublist (names_opened perFile es) ?_
  rw [List.pairwise_map]
  refine onward.imp_of_mem fun {a b} ha hb le => ?_
  have micros := Instant.micros_le_of_le (plain a ha) le
  rcases Int.lt_or_eq_of_le micros with less | same
  · exact le_of_lt (fileName_lt (plain a ha) (plain b hb) less)
  · exact le_of_eq (fileName_congr (plain a ha) (plain b hb) same)

include plain onward in
/-- As the names do not go backwards, two of them are equal only if two that follow each other
are. -/
theorem nodup_names_iff : ((opened perFile es).map (·.name)).Nodup ↔
    Apart perFile (es.map (·.2)) := by
  have times : ∀ t ∈ es.map (·.2), t.Plain := by simpa using fun t e mem => plain (e, t) mem
  have sorted := names_onward plain onward perFile
  constructor
  · intro nodup i t u first next same
    have names : fileName t = fileName u := fileName_congr (times t (List.mem_of_getElem? first))
      (times u (List.mem_of_getElem? next)) same
    have here : ((opened perFile es).map (·.name))[i]? = some (fileName t) := by
      rw [getElem?_names, first, Option.map_some]
    have there : ((opened perFile es).map (·.name))[i + 1]? = some (fileName t) := by
      rw [getElem?_names, next, Option.map_some, names]
    have inside := (List.getElem?_eq_some_iff.mp here).1
    have equal := (List.getElem?_inj inside nodup).mp (here.trans there.symm)
    omega
  · intro apart
    have chain : ((opened perFile es).map (·.name)).IsChain (· < ·) := by
      rw [List.isChain_iff_getElem]
      intro i inside
      refine lt_of_le_of_ne
        (List.pairwise_iff_getElem.mp sorted i (i + 1) (by omega) inside (by omega)) ?_
      have here := getElem?_names perFile i es
      have there := getElem?_names perFile (i + 1) es
      rw [List.getElem?_eq_getElem (by omega), eq_comm, Option.map_eq_some_iff] at here
      rw [List.getElem?_eq_getElem inside, eq_comm, Option.map_eq_some_iff] at there
      obtain ⟨t, first, here⟩ := here
      obtain ⟨u, next, there⟩ := there
      rw [← here, ← there, Ne, fileName_eq_iff (times t (List.mem_of_getElem? first))
        (times u (List.mem_of_getElem? next))]
      exact apart i t u first next
    exact (List.isChain_iff_pairwise.mp chain).imp fun less => ne_of_lt less

include plain onward in
theorem standing_sorted :
    (standing (opened perFile es)).Pairwise fun a b => (!decide (b.name < a.name)) = true := by
  have part := standing_sublist (opened perFile es)
  have sorted := List.Pairwise.sublist (part.map (·.name)) (names_onward plain onward perFile)
  refine (List.pairwise_map.mp sorted).imp fun le => ?_
  rw [Bool.not_eq_true', decide_eq_false_iff_not]
  exact not_lt_of_ge le

end Order

/-- On a fresh directory, with a clock that does not go backwards, every event is taken, and the
files are those that were opened, each full before the next, except that one opened in the same
microsecond as another has taken its place. They hold every event once, in order, just if no file
was opened in the same microsecond as the one before it. -/
theorem holds_all_unless_opened_at_once {directory : String}
    (created : create directory .nothing perFile = .ok j) (plain : ∀ e ∈ es, e.2.Plain)
    (onward : es.Pairwise fun a b => a.2.le b.2 = true) :
    (∀ e now, ((j.writeAll es).write e now).2 = .ok ()) ∧
    (j.writeAll es).listing = standing (opened perFile es) ∧
    (∀ f ∈ (j.writeAll es).listing.dropLast, f.lines.length = max perFile 1) ∧
    ((j.writeAll es).lines = es.map line ↔ Apart perFile (es.map (·.2))) := by
  obtain rfl := Except.ok.inj created
  have folder := folder_writeAll (j := ⟨directory, max perFile 1, some [], none⟩) rfl rfl rfl es
  rw [foldl_put, List.filter_nil, List.nil_append] at folder
  have listing : (writeAll ⟨directory, max perFile 1, some [], none⟩ es).listing =
      standing (opened perFile es) := by
    rw [Journal.listing, folder]
    exact List.mergeSort_of_pairwise (standing_sorted plain onward)
  refine ⟨write_ok folder, listing, fun f hf => ?_, ?_⟩
  · rw [listing] at hf
    exact full_of_opened (mem_dropLast_of_standing hf)
  · rw [← nodup_names_iff plain onward, Journal.lines, listing, ← lines_opened perFile es]
    constructor
    · intro all
      have same := eq_of_sublist_of_lines (standing_sublist _) (fun f hf => lines_ne_nil hf)
        (congrArg List.length all)
      rw [← same]
      exact nodup_standing _
    · intro apart
      rw [standing_of_nodup apart]

/-- Two files, the second opened a second after the first. -/
theorem holds_all_unless_opened_at_once_of_two_files :
    let e : Event := .traded default .epoch
    let es : List (Event × Instant) := [(e, ⟨0, 0⟩), (e, ⟨0, 0⟩), (e, ⟨1, 0⟩)]
    ∃ j, create "events" .nothing 2 = .ok j ∧ (j.writeAll es).lines = es.map line ∧
      ∀ f ∈ (j.writeAll es).listing.dropLast, f.lines.length = 2 := by
  intro e es
  have plain : ∀ x ∈ es, x.2.Plain := by
    intro x hx
    simp only [es, List.mem_cons, List.not_mem_nil, or_false] at hx
    rcases hx with rfl | rfl | rfl <;> exact ⟨by decide, by decide, by decide⟩
  have onward : es.Pairwise fun a b => a.2.le b.2 = true := by simp [es]; decide
  have apart : Apart 2 (es.map (·.2)) := by
    intro i t u first next
    cases i with
    | zero =>
      simp [es] at first next
      subst first next
      decide
    | succ i =>
      have beyond : (es.map (·.2)).length ≤ (i + 1 + 1) * max 2 1 := by
        simp [es]
        omega
      rw [List.getElem?_eq_none beyond] at next
      cases next
  have created : create "events" .nothing 2 = .ok _ := rfl
  obtain ⟨-, -, full, all⟩ := holds_all_unless_opened_at_once created plain onward
  exact ⟨_, created, all.mpr apart, full⟩

theorem mergeSort_pair {α : Type} {le : α → α → Bool} {a b : α} (turned : le a b = false) :
    [a, b].mergeSort le = [b, a] := by
  simp [List.mergeSort, List.MergeSort.Internal.splitInTwo, turned]

/-- With two events a file, the first two of three events at one time are lost, though all are
taken; the names of the year 10000 come before those of the year 9999; and an event that is written
once the folder is removed is taken and not held. -/
theorem later_file_takes_place :
    let e (n : Nat) : Event := .traded { (default : Trade) with sequence := n } .epoch
    let eve : Instant := ⟨253402300799, 0⟩
    let newYear : Instant := ⟨253402300800, 0⟩
    ∃ j, create "events" .nothing 2 = .ok j ∧
      (∀ es e now, ((j.writeAll es).write e now).2 = .ok ()) ∧
      (j.writeAll [(e 1, .epoch), (e 2, .epoch), (e 3, .epoch)]).lines =
        [Event.codec.encode (e 3)] ∧
      (j.writeAll [(e 1, eve), (e 2, eve), (e 3, newYear)]).lines =
        [e 3, e 1, e 2].map Event.codec.encode ∧
      ((j.write (e 1) .epoch).1.removeFolder.write (e 2) .epoch).2 = .ok () ∧
      ((j.write (e 1) .epoch).1.removeFolder.write (e 2) .epoch).1.lines = [] := by
  intro e eve newYear
  have folder (es : List (Event × Instant)) :
      (writeAll ⟨"events", 2, some [], none⟩ es).folder = some ((opened 2 es).foldl put []) :=
    folder_writeAll rfl rfl rfl es
  have less : fileName newYear < fileName eve := by
    rw [String.lt_iff_toList_lt]
    decide
  have other : (fileName eve != fileName newYear) = true := bne_iff_ne.mpr (ne_of_gt less)
  refine ⟨⟨"events", 2, some [], none⟩, rfl, fun es => write_ok (folder es), ?_, ?_, ?_, ?_⟩
  · rw [Journal.lines, listing, folder]
    simp [opened, put, line]
  · have files : (opened 2 [(e 1, eve), (e 2, eve), (e 3, newYear)]).foldl put [] =
        [⟨fileName eve, [line (e 1, eve), line (e 2, eve)]⟩,
          ⟨fileName newYear, [line (e 3, newYear)]⟩] := by
      simp [opened, put, other]
    rw [Journal.lines, listing, folder, files, Option.getD_some,
      mergeSort_pair (by rw [decide_eq_true less]; rfl)]
    rfl
  · rfl
  · have gone : ((Journal.write ⟨"events", 2, some [], none⟩ (e 1) .epoch).1.removeFolder.write
        (e 2) .epoch).1.folder = none := rfl
    simp [Journal.lines, listing, gone]

end Bourse.Journal
