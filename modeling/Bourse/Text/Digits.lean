/-! Numbers as digits: decimal numerals, numerals of a fixed width, and hexadecimal digits. -/
namespace Bourse.Text

def tenTo (n : Nat) : Nat := Nat.pow 10 n

def digit? (c : Char) : Option Nat :=
  if c.isDigit then some (c.toNat - '0'.toNat) else none

/-- The value of a text of ASCII digits, of which there is at least one. -/
def natural? (cs : List Char) : Option Nat :=
  if !cs.isEmpty && cs.all Char.isDigit then some (Nat.ofDigitChars 10 cs 0) else none

/-- A numeral that may carry one plus sign, as counts and ports are written in settings. -/
def signedNatural? : List Char → Option Nat
  | '+' :: cs => natural? cs
  | cs => natural? cs

def boundedNatural? (limit : Nat) (cs : List Char) : Option Nat :=
  (signedNatural? cs).filter (· ≤ limit)

def decimal (n : Nat) : List Char := Nat.toDigits 10 n

/-- At least `width` digits, filled up with zeros on the left. -/
def padded (width n : Nat) : List Char :=
  List.replicate (width - (decimal n).length) '0' ++ decimal n

def hexDigit? (c : Char) : Option Nat :=
  if c.isDigit then some (c.toNat - '0'.toNat)
  else if 'a' ≤ c && c ≤ 'f' then some (c.toNat - 'a'.toNat + 10)
  else if 'A' ≤ c && c ≤ 'F' then some (c.toNat - 'A'.toNat + 10)
  else none

/-- The value of a text of hexadecimal digits; the empty text has the value zero. -/
def hexValue? (cs : List Char) : Option Nat :=
  cs.foldlM (fun n c => (hexDigit? c).map (16 * n + ·)) 0

def hexadecimal (n : Nat) : List Char := Nat.toDigits 16 n

def hexPadded (width n : Nat) : List Char :=
  List.replicate (width - (hexadecimal n).length) '0' ++ hexadecimal n

/-- The largest count that fits sixty-four bits. -/
def maxCount : Nat := 18446744073709551615

end Bourse.Text
