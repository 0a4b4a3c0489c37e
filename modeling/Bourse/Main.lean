import Bourse.Http.Line
import Bourse.Http.Service
import Bourse.Journal
import Bourse.Settings.Sources
import Std.Time.DateTime.Timestamp

/-! The program. Its settings come from the variables, a file of more variables, and the command
line. It answers the requests on standard input, one a line. -/
namespace Bourse.Program

open Bourse.Http

def eventsPerFile : Nat := 10000

def now : IO Instant := do
  let nanos := (← Std.Time.Timestamp.now).toNanosecondsSinceUnixEpoch.val
  return ⟨nanos / 1000000000, (nanos % 1000000000).toNat⟩

def randomBits : IO Nat := do
  let bytes ← IO.getRandomBytes 16
  return bytes.toList.foldl (fun n b => 256 * n + b.toNat) 0

/-- The clock as it is, and ids that nobody has seen. -/
def occasion : IO Occasion := do
  let time ← now
  let trades ← randomBits
  let orders ← randomBits
  return ⟨⟨time, fun n => .ofRandom (trades + n)⟩, fun n => ⟨(Uuid.ofRandom (orders + n)).text⟩⟩

def fileOfVariables : IO String := do
  try IO.FS.readFile ".env" catch _ => return ""

def setVariables (file : String) : IO VariableFile.Variables :=
  (Settings.names ++ VariableFile.words file).eraseDups.filterMapM fun name => do
    return (← IO.getEnv name).map (name, ·)

/-- The journal and its place in the feed. -/
structure Recorder where
  journal : Journal
  place : Nat

def writeEvent (journal : Journal) (e : Event) : IO Journal := do
  match journal.write e (← now) with
  | (journal, .error x) =>
    IO.eprintln (Journal.failureText x)
    return journal
  | (journal, .ok _) =>
    match journal.current with
    | none => return journal
    | some file =>
      let handle ← IO.FS.Handle.mk (journal.directory ++ "/" ++ file.name) .append
      handle.putStrLn (Event.codec.encode e)
      return journal

def Recorder.catchUp (r : Recorder) (f : Feed Event) : IO Recorder := do
  let (found, place) := f.drain (f.ahead r.place) r.place
  let mut journal := r.journal
  for x in found do
    match x with
    | .item e => journal ← writeEvent journal e
    | _ => pure ()
  return ⟨journal, place⟩

partial def loop (input output : IO.FS.Stream) (s : Service) (r : Option Recorder) : IO UInt32 := do
  let line ← input.getLine
  if line.isEmpty then return 0
  match s.answer (← occasion) (.ofLine line) with
  | .error fault =>
    IO.eprintln fault.message
    return 1
  | .ok (s, response) =>
    output.putStrLn response.line
    output.flush
    loop input output s (← r.mapM (·.catchUp s.api.desk.feed))

def openRecorder (directory : Option String) (feed : Feed Event) :
    IO (Feed Event × Option Recorder) := do
  match directory with
  | none => return (feed, none)
  | some directory =>
    IO.FS.createDirAll directory
    match Journal.create directory (.folder []) eventsPerFile with
    | .error x => throw (IO.userError x.message)
    | .ok journal =>
      let (feed, place) := feed.subscribe
      return (feed, some ⟨journal, place⟩)

def run (settings : Settings) : IO UInt32 := do
  match (Feed.new settings.feedCapacity).bind fun feed =>
      (Desk.room settings.commandBuffer).map fun _ => feed with
  | .error x => throw (IO.userError x.message)
  | .ok feed =>
    let (feed, recorder) ← openRecorder settings.journal feed
    match Desk.start (.ofLedger .empty) feed with
    | .error fault => throw (IO.userError fault.message)
    | .ok desk =>
      loop (← IO.getStdin) (← IO.getStdout) (.new ⟨desk, 0, settings.depthLimit⟩) recorder

end Bourse.Program

def main (args : List String) : IO UInt32 := do
  let file ← Bourse.Program.fileOfVariables
  match Bourse.Settings.gather (← Bourse.Program.setVariables file) file args with
  | .ok settings => Bourse.Program.run settings
  | .error (.setting e) =>
    IO.eprintln ("failed to load configuration: " ++ e.message)
    return 1
  | .error (.argument e) =>
    IO.eprintln e.message
    return if e = .help then 0 else 2
