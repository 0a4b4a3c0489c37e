import Bourse.Text.Digits

/-! Identifiers of one hundred and twenty-eight bits. Written as thirty-two small hexadecimal
digits in groups of 8, 4, 4, 4 and 12; read in that form, without hyphens, in braces, or after
`urn:uuid:`, with letters of either size throughout. -/
namespace Bourse

/-- Two to the power one hundred and twenty-eight. -/
def Uuid.limit : Nat := 0x100000000000000000000000000000000

structure Uuid where
  value : Nat
  value_lt : value < Uuid.limit
deriving DecidableEq

namespace Uuid

open Bourse.Text

def nil : Uuid := ⟨0, by decide⟩

instance : Inhabited Uuid := ⟨nil⟩

/-- The low one hundred and twenty-eight bits of a number. -/
def ofNat (n : Nat) : Uuid := ⟨n % limit, Nat.mod_lt _ (by decide)⟩

/-- The identifier of random bits: all but six of them are kept, and those say that it is random. -/
def ofRandom (bits : Nat) : Uuid :=
  ofNat (bits / 0x100000000000000000000 * 0x100000000000000000000 + 0x40000000000000000000 +
    bits / 0x10000000000000000 % 0x1000 * 0x10000000000000000 + 0x8000000000000000 +
    bits % 0x4000000000000000)

def toChars (u : Uuid) : List Char :=
  let d := hexPadded 32 u.value
  d.take 8 ++ '-' :: (d.drop 8).take 4 ++ '-' :: (d.drop 12).take 4 ++ '-' :: (d.drop 16).take 4 ++
    '-' :: d.drop 20

def text (u : Uuid) : String := String.ofList u.toChars

def ofDigits? (cs : List Char) : Option Uuid :=
  if cs.length = 32 then
    (hexValue? cs).bind fun n => if h : n < limit then some ⟨n, h⟩ else none
  else none

/-- Hyphens stand after the eighth, twelfth, sixteenth and twentieth digit. -/
def ofGroups? (cs : List Char) : Option Uuid :=
  if cs.length = 36 && cs[8]? == some '-' && cs[13]? == some '-' && cs[18]? == some '-' &&
      cs[23]? == some '-' then
    ofDigits? (cs.take 8 ++ (cs.drop 9).take 4 ++ (cs.drop 14).take 4 ++ (cs.drop 19).take 4 ++
      cs.drop 24)
  else none

def ofChars? (cs : List Char) : Option Uuid :=
  if cs.length = 32 then ofDigits? cs
  else if cs.length = 36 then ofGroups? cs
  else if cs.length = 38 && cs.head? == some '\x7b' && cs.getLast? == some '\x7d' then
    ofGroups? (cs.drop 1).dropLast
  else if (cs.take 9).map Char.toLower = "urn:uuid:".toList then ofGroups? (cs.drop 9)
  else none

def ofText? (s : String) : Option Uuid := ofChars? s.toList

end Uuid
end Bourse
