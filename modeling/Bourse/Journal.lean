import Bourse.Market.Codec
import Bourse.Time.Calendar

/-! The journal: every event as one line of JSON, in files of a directory. A file takes a fixed
number of events; the next one is named for the time of its opening, so that the names sort in the
order of writing. -/
namespace Bourse

structure JournalFile where
  name : String
  lines : List String
deriving DecidableEq

/-- The file being written. It is unlinked once its directory has been removed: writing still
succeeds, and is lost. -/
structure OpenFile where
  name : String
  linked : Bool
  written : Nat
deriving DecidableEq

inductive IoError where
  | alreadyExists
  | notFound
deriving DecidableEq

def IoError.message : IoError → String
  | alreadyExists => "File exists (os error 17)"
  | notFound => "No such file or directory (os error 2)"

inductive Standing where
  | nothing
  | file
  | folder (files : List JournalFile)
deriving DecidableEq

/-- The `folder` holds the files of the directory while there is one. -/
structure Journal where
  directory : String
  perFile : Nat
  folder : Option (List JournalFile)
  current : Option OpenFile
deriving DecidableEq

namespace Journal

open Bourse.Text Bourse.Time

/-- A journal on this directory, which is made if need be. A file holds one event at least. -/
def create (directory : String) (standing : Standing) (perFile : Nat) : Except IoError Journal :=
  match standing with
  | .nothing => .ok ⟨directory, max perFile 1, some [], none⟩
  | .folder files => .ok ⟨directory, max perFile 1, some files, none⟩
  | .file => .error .alreadyExists

def topics : List String := EventKind.all.map EventKind.name

/-- Date, time of day and microseconds. -/
def fileName (now : Instant) : String :=
  let date := Date.ofDays (now.second / Instant.secondsPerDay)
  let s := (now.second % Instant.secondsPerDay).natAbs
  String.ofList ("events_".toList ++ Instant.yearChars date.year ++ padded 2 date.month ++
    padded 2 date.day ++ '_' :: padded 2 (s / 3600) ++ padded 2 (s / 60 % 60) ++
    padded 2 (s % 60) ++ '_' :: padded 6 (now.nano / 1000) ++ ".jsonl".toList)

/-- A name of this pattern, whatever its digits. -/
def isFileName (name : String) : Bool :=
  name.toList.map (fun c => if c.isDigit then '0' else c) ==
    "events_00000000_000000_000000.jsonl".toList

/-- The file of this name becomes an empty one, whether there was one or not. -/
def emptied (name : String) (files : List JournalFile) : List JournalFile :=
  files.filter (·.name != name) ++ [⟨name, []⟩]

def extended (name line : String) (files : List JournalFile) : List JournalFile :=
  files.map fun f => if f.name = name then { f with lines := f.lines ++ [line] } else f

/-- Goes on to a new file if none is being written or the one being written is full. -/
def ready (j : Journal) (now : Instant) : Except IoError (Journal × OpenFile) :=
  match j.current.filter fun c => c.written < j.perFile with
  | some c => .ok (j, c)
  | none =>
    match j.folder with
    | none => .error .notFound
    | some files =>
      .ok ({ j with folder := some (emptied (fileName now) files) }, ⟨fileName now, true, 0⟩)

def write (j : Journal) (e : Event) (now : Instant) : Journal × Except IoError Unit :=
  match j.ready now with
  | .error e => (j, .error e)
  | .ok (j, c) =>
    ({ j with
        folder :=
          if c.linked then j.folder.map (extended c.name (Event.codec.encode e)) else j.folder
        current := some { c with written := c.written + 1 } }, .ok ())

def failureText (e : IoError) : String :=
  "Failed to process event: Failed to persist event: " ++ e.message

def removeFolder (j : Journal) : Journal :=
  { j with folder := none, current := j.current.map ({ · with linked := false }) }

/-- Another journal on the same directory. -/
def reopen (j : Journal) (perFile : Nat) : Journal :=
  ⟨j.directory, max perFile 1, some (j.folder.getD []), none⟩

/-- The files in the order of their names. -/
def listing (j : Journal) : List JournalFile :=
  (j.folder.getD []).mergeSort fun a b => !decide (b.name < a.name)

def lines (j : Journal) : List String := j.listing.flatMap (·.lines)

end Journal
end Bourse
