import Bourse.Settings.Arguments
import Bourse.Settings.VariableFile

/-! Settings from all their sources: variables, a file of more of them, and the command line. -/
namespace Bourse

inductive SourceError where
  | setting (e : SettingError)
  | argument (e : ArgumentError)
deriving DecidableEq

/-- The command line goes before the variables, and those before the file. The variables are
looked at first. -/
def Settings.gather (set : VariableFile.Variables) (file : String) (args : List String) :
    Except SourceError Settings :=
  match Settings.ofLookup fun name => (VariableFile.load set file).lookup name with
  | .error e => .error (.setting e)
  | .ok s =>
    match Arguments.read args with
    | .error e => .error (.argument e)
    | .ok a => .ok (s.withArguments a)

end Bourse
