import Bourse.Text.Digits

/-! Socket addresses: a host of four octets or eight groups of sixteen bits, and a port. -/
namespace Bourse

inductive Host where
  | v4 (octets : List Nat)
  | v6 (groups : List Nat) (scope : Nat)
deriving DecidableEq

structure Address where
  host : Host
  port : Nat
deriving DecidableEq

namespace Address

open Bourse.Text

/-- A way to read something from the start of a text, and what follows it. -/
def Reading (α : Type) : Type := List Char → Option (α × List Char)

def expect (c : Char) : Reading Unit
  | x :: r => if x = c then some ((), r) else none
  | [] => none

/-- A decimal number up to a limit, of at most `width` digits if there is a width. Zeros in front of
other digits are refused where they might mean another base. -/
def readDecimal (width : Option Nat) (zeros : Bool) (limit : Nat) : Reading Nat := fun cs =>
  let digits := cs.takeWhile Char.isDigit
  if width.any (· < digits.length) then none
  else if !zeros && digits.head? == some '0' && digits.length > 1 then none
  else (natural? digits).bind fun n =>
    if n ≤ limit then some (n, cs.dropWhile Char.isDigit) else none

def readOctets : Reading (List Nat) := fun cs => do
  let octet := readDecimal (some 3) false 255
  let (a, cs) ← octet cs
  let (_, cs) ← expect '.' cs
  let (b, cs) ← octet cs
  let (_, cs) ← expect '.' cs
  let (c, cs) ← octet cs
  let (_, cs) ← expect '.' cs
  let (d, cs) ← octet cs
  return ([a, b, c, d], cs)

def isHexDigit (c : Char) : Bool := (hexDigit? c).isSome

/-- One group: one to four hexadecimal digits. -/
def readGroup : Reading Nat := fun cs =>
  let digits := cs.takeWhile isHexDigit
  if digits.isEmpty || digits.length > 4 then none
  else (hexValue? digits).map (·, cs.dropWhile isHexDigit)

/-- The colon that stands before every group but the first. -/
def separated {α : Type} (first : Bool) (read : Reading α) : Reading α := fun cs =>
  if first then read cs else (expect ':' cs).bind fun (_, cs) => read cs

def groupsOfOctets : List Nat → List Nat
  | [a, b, c, d] => [256 * a + b, 256 * c + d]
  | _ => []

/-- As many groups as there are, at most so many. The last two may be written as octets; whether
they are is told too. -/
def readGroups : Nat → Bool → List Char → List Nat × Bool × List Char
  | 0, _, cs => ([], false, cs)
  | n + 1, first, cs =>
    match (if n = 0 then none else separated first readOctets cs) with
    | some (octets, cs) => (groupsOfOctets octets, true, cs)
    | none =>
      match separated first readGroup cs with
      | none => ([], false, cs)
      | some (g, cs) =>
        let (gs, octets, cs) := readGroups n false cs
        (g :: gs, octets, cs)

/-- Eight groups, or fewer around a double colon that stands for one zero or more. -/
def readEightGroups : Reading (List Nat) := fun cs =>
  let (head, octets, cs) := readGroups 8 true cs
  if head.length = 8 then some (head, cs)
  else if octets then none
  else do
    let (_, cs) ← expect ':' cs
    let (_, cs) ← expect ':' cs
    let (tail, _, cs) := readGroups (7 - head.length) true cs
    return (head ++ List.replicate (8 - head.length - tail.length) 0 ++ tail, cs)

def maxPort : Nat := 65535

def readPort : Reading Nat := fun cs =>
  (expect ':' cs).bind fun (_, cs) => readDecimal none true maxPort cs

def readFour : Reading Address := fun cs => do
  let (octets, cs) ← readOctets cs
  let (port, cs) ← readPort cs
  return (⟨.v4 octets, port⟩, cs)

/-- A scope follows a percent sign; without one it is zero. -/
def readScope (cs : List Char) : Option (Nat × List Char) :=
  match cs with
  | '%' :: r => readDecimal none true 4294967295 r
  | r => some (0, r)

def readSix : Reading Address := fun cs => do
  let (_, cs) ← expect '[' cs
  let (groups, cs) ← readEightGroups cs
  let (scope, cs) ← readScope cs
  let (_, cs) ← expect ']' cs
  let (port, cs) ← readPort cs
  return (⟨.v6 groups scope, port⟩, cs)

/-- A reading that leaves nothing. -/
def whole {α : Type} (read : Reading α) (cs : List Char) : Option α :=
  match read cs with
  | some (a, []) => some a
  | _ => none

def ofText? (s : String) : Option Address :=
  match whole readFour s.toList with
  | some a => some a
  | none => whole readSix s.toList

def joined (between : Char) : List (List Char) → List Char
  | [] => []
  | [x] => x
  | x :: xs => x ++ between :: joined between xs

/-- Start and length of the first longest run of zeros, from a place on. -/
def longestZeros : Nat → List Nat → Nat × Nat
  | _, [] => (0, 0)
  | i, g :: gs =>
    let here := (g :: gs).takeWhile (· == 0)
    let later := longestZeros (i + 1) gs
    if here.length ≥ later.2 then (i, here.length) else later

/-- Groups in hexadecimal without zeros in front. The first longest run of two zeros or more is left
out between two colons. -/
def groupChars (groups : List Nat) : List Char :=
  let (start, length) := longestZeros 0 groups
  let written (gs : List Nat) : List Char := joined ':' (gs.map hexadecimal)
  if length > 1 then
    written (groups.take start) ++ "::".toList ++ written (groups.drop (start + length))
  else written groups

def octetChars (octets : List Nat) : List Char := joined '.' (octets.map decimal)

/-- Groups that hold an address of four octets show it. -/
def sixChars : List Nat → List Char
  | [0, 0, 0, 0, 0, 0xFFFF, x, y] =>
    "::ffff:".toList ++ octetChars [x / 256, x % 256, y / 256, y % 256]
  | groups => groupChars groups

def toChars (a : Address) : List Char :=
  match a.host with
  | .v4 octets => octetChars octets ++ ':' :: decimal a.port
  | .v6 groups scope =>
    '[' :: sixChars groups ++ (if scope = 0 then [] else '%' :: decimal scope) ++
      ']' :: ':' :: decimal a.port

def text (a : Address) : String := String.ofList a.toChars

end Address
end Bourse
