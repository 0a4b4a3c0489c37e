import Bourse.Settings.Basic

/-! The command line: two options, each with a value that follows it or is joined to it by an equals
sign, and a request for help. -/
namespace Bourse

inductive ArgumentError where
  /-- An option that does not exist, or an argument that belongs to none. -/
  | unknown
  /-- An option without a value, or an empty directory. -/
  | missingValue
  | badAddress
  | repeated
  | help
  /-- A value for an option that takes none. -/
  | unwantedValue
deriving DecidableEq

def ArgumentError.message : ArgumentError → String
  | unknown => "unexpected argument found"
  | missingValue => "a value is required"
  | badAddress => "invalid socket address syntax"
  | repeated => "an argument cannot be used multiple times"
  | help => "Limit order matching engine with a REST API"
  | unwantedValue => "unexpected value for '--help' found"

structure Arguments where
  address : Option Address
  journal : Option String
deriving DecidableEq

namespace Arguments

inductive Flag where
  | address
  | journal
deriving DecidableEq

/-- An option whose value has not been looked at yet, with the value if it has come. -/
structure Pending where
  flag : Flag
  value : Option String

def Flag.ofName? (name : List Char) : Option Flag :=
  if name = "addr".toList then some .address
  else if name = "event-log-dir".toList then some .journal
  else none

def set (a : Arguments) (o : Flag) (value : String) : Except ArgumentError Arguments :=
  match o with
  | .address =>
    if a.address.isSome then .error .repeated
    else match Address.ofText? value with
      | some x => .ok { a with address := some x }
      | none => .error .badAddress
  | .journal =>
    if a.journal.isSome then .error .repeated
    else if value.isEmpty then .error .missingValue
    else .ok { a with journal := some value }

def resolve (a : Arguments) : Option Pending → Except ArgumentError Arguments
  | none => .ok a
  | some ⟨_, none⟩ => .error .missingValue
  | some ⟨o, some value⟩ => a.set o value

inductive Shape where
  | doubleDash
  | long (name : List Char) (value : Option (List Char))
  | short (letters : List Char)
  | plain

def shape (arg : List Char) : Shape :=
  match arg with
  | ['-', '-'] => .doubleDash
  | '-' :: '-' :: r =>
    match r.span (· != '=') with
    | (name, []) => .long name none
    | (name, _ :: value) => .long name (some value)
  | '-' :: c :: r => .short (c :: r)
  | _ => .plain

/-- Goes through the arguments. The value of an option is looked at when the next option comes, or
at the end; an unknown argument is reported before it. -/
def readFrom (a : Arguments) (pending : Option Pending) :
    List String → Except ArgumentError Arguments
  | [] => a.resolve pending
  | arg :: rest =>
    match shape arg.toList with
    | .doubleDash => if rest.isEmpty then a.resolve pending else .error .unknown
    | .long name value =>
      if name = "help".toList then
        match value with
        | some _ => .error .unwantedValue
        | none =>
          match a.resolve pending with
          | .error e => .error e
          | .ok _ => .error .help
      else match Flag.ofName? name with
        | none => .error .unknown
        | some o =>
          match a.resolve pending with
          | .error e => .error e
          | .ok a =>
            match value with
            | none => readFrom a (some ⟨o, none⟩) rest
            | some v =>
              match a.set o (String.ofList v) with
              | .error e => .error e
              | .ok a => readFrom a none rest
    | .short letters =>
      if letters.head? = some 'h' then
        match a.resolve pending with
        | .error e => .error e
        | .ok _ => .error .help
      else .error .unknown
    | .plain =>
      match pending with
      | some ⟨o, none⟩ => readFrom a (some ⟨o, some arg⟩) rest
      | _ => .error .unknown

def read (args : List String) : Except ArgumentError Arguments := readFrom ⟨none, none⟩ none args

end Arguments

/-- What the command line says goes before what the variables say. -/
def Settings.withArguments (s : Settings) (a : Arguments) : Settings :=
  { s with address := a.address.getD s.address, journal := a.journal <|> s.journal }

end Bourse
