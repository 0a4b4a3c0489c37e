import Bourse.Settings.Address
import Bourse.Text.Blank
import Bourse.Text.Quoted

/-! Settings of the service, read from named variables. A variable that is not set leaves its
setting as it is by default; one that makes no sense is an error. -/
namespace Bourse

structure Settings where
  address : Address
  feedCapacity : Nat
  commandBuffer : Nat
  journal : Option String
  depthLimit : Nat
deriving DecidableEq

structure SettingError where
  name : String
  value : String
deriving DecidableEq

def SettingError.message (e : SettingError) : String :=
  "invalid value " ++ Text.quoted e.value ++ " for environment variable " ++ e.name

namespace Settings

open Bourse.Text

def standard : Settings :=
  { address := ⟨.v4 [0, 0, 0, 0], 8080⟩, feedCapacity := 1024, commandBuffer := 1000
    journal := none, depthLimit := 20 }

def names : List String :=
  ["APP_ADDR", "APP_PORT", "EVENT_BUS_CAPACITY", "COMMAND_BUFFER", "DEPTH_LIMIT", "EVENT_LOG_DIR"]

/-- A value that is set must be readable; blanks around it do not count. -/
def setting {α : Type} (lookup : String → Option String) (name : String)
    (read : List Char → Option α) (unset : α) : Except SettingError α :=
  match lookup name with
  | none => .ok unset
  | some value =>
    match read (trimBoth value.toList) with
    | some a => .ok a
    | none => .error ⟨name, value⟩

def positive? (cs : List Char) : Option Nat := (boundedNatural? maxCount cs).filter (· ≠ 0)

/-- The variables are looked at in a fixed order, so the first error is always the same. A port of
its own replaces that of the address. A blank directory is none. -/
def ofLookup (lookup : String → Option String) : Except SettingError Settings := do
  let address ←
    setting lookup "APP_ADDR" (fun cs => Address.ofText? (String.ofList cs)) standard.address
  let port ← setting lookup "APP_PORT" (boundedNatural? Address.maxPort) address.port
  let feedCapacity ← setting lookup "EVENT_BUS_CAPACITY" positive? standard.feedCapacity
  let commandBuffer ← setting lookup "COMMAND_BUFFER" positive? standard.commandBuffer
  let depthLimit ← setting lookup "DEPTH_LIMIT" positive? standard.depthLimit
  let journal := (lookup "EVENT_LOG_DIR").filter fun dir => !isBlankText dir
  return { address := { address with port }, feedCapacity, commandBuffer, journal, depthLimit }

end Settings
end Bourse
