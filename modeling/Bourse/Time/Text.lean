import Bourse.Text.Blank
import Bourse.Text.Digits
import Bourse.Time.Calendar
import Bourse.Time.Instant

/-! Instants as text in the manner of RFC 3339. Writing is in UTC with 0, 3, 6 or 9 digits of
fraction, the fewest that are exact. Reading is liberal: fields need no filling up, blanks may
stand between the parts, and the colon of an offset may be missing. -/
namespace Bourse.Instant

open Bourse.Text Bourse.Time

def secondsPerDay : Int := 86400
def nanosPerSecond : Nat := 1000000000

def fractionChars (n : Nat) : List Char :=
  if n = 0 then []
  else if n % 1000000 = 0 then '.' :: padded 3 (n / 1000000)
  else if n % 1000 = 0 then '.' :: padded 6 (n / 1000)
  else '.' :: padded 9 n

/-- Four digits from year 0 to 9999, otherwise a sign and at least four. -/
def yearChars (y : Int) : List Char :=
  if 0 ≤ y ∧ y ≤ 9999 then padded 4 y.natAbs
  else (if y < 0 then '-' else '+') :: padded 4 y.natAbs

def localChars (t : Instant) : List Char :=
  let date := Date.ofDays (t.second / secondsPerDay)
  let s := (t.second % secondsPerDay).natAbs
  let leap := t.nano / nanosPerSecond
  yearChars date.year ++ '-' :: padded 2 date.month ++ '-' :: padded 2 date.day ++
    'T' :: padded 2 (s / 3600) ++ ':' :: padded 2 (s / 60 % 60) ++
    ':' :: padded 2 (s % 60 + leap) ++ fractionChars (t.nano % nanosPerSecond)

def toChars (t : Instant) : List Char := t.localChars ++ ['Z']

def text (t : Instant) : String := String.ofList t.toChars

/-- The same with the offset of UTC written out. -/
def offsetText (t : Instant) : String := String.ofList (t.localChars ++ "+00:00".toList)

/-- The digits at the start of a text, at most `width` of them. -/
def takeDigits : Nat → List Char → List Char × List Char
  | 0, cs => ([], cs)
  | _ + 1, [] => ([], [])
  | width + 1, c :: cs =>
    if c.isDigit then
      let (digits, rest) := takeDigits width cs
      (c :: digits, rest)
    else ([], c :: cs)

def number (width : Nat) (cs : List Char) : Option (Nat × List Char) :=
  let (digits, rest) := takeDigits width cs
  (natural? digits).map (·, rest)

/-- A number that blanks may precede. -/
def field (width : Nat) (cs : List Char) : Option (Nat × List Char) := number width (trimStart cs)

/-- A year of up to four digits, or a sign and any number of them. -/
def yearField (cs : List Char) : Option (Int × List Char) :=
  match trimStart cs with
  | '-' :: r => (number r.length r).map fun (n, r) => (-(n : Int), r)
  | '+' :: r => (number r.length r).map fun (n, r) => ((n : Int), r)
  | r => (number 4 r).map fun (n, r) => ((n : Int), r)

/-- A separator that blanks may precede. -/
def separator (c : Char) (cs : List Char) : Option (List Char) :=
  match trimStart cs with
  | x :: r => if x = c then some r else none
  | [] => none

def firstYear : Int := -262143
def lastYear : Int := 262142

def readDate (cs : List Char) : Option (Date × List Char) := do
  let (y, cs) ← yearField cs
  let cs ← separator '-' cs
  let (m, cs) ← field 2 cs
  let cs ← separator '-' cs
  let (d, cs) ← field 2 cs
  let date : Date := ⟨y, m, d⟩
  if date.valid && decide (firstYear ≤ y) && decide (y ≤ lastYear) then some (date, cs) else none

/-- Nanoseconds of a fraction: nine digits count, further ones are passed over. -/
def readFraction : List Char → Option (Nat × List Char)
  | '.' :: cs =>
    let (digits, rest) := takeDigits 9 cs
    (natural? digits).map fun n => (n * tenTo (9 - digits.length), rest.dropWhile Char.isDigit)
  | cs => some (0, cs)

/-- Second of the day and nanoseconds after it. The sixty-first second of a minute is a leap
second. -/
def readClock (cs : List Char) : Option (Nat × Nat × List Char) := do
  let (h, cs) ← field 2 cs
  let cs ← separator ':' cs
  let (m, cs) ← field 2 cs
  let cs ← separator ':' cs
  let (s, cs) ← field 2 cs
  let (n, cs) ← readFraction cs
  if h < 24 ∧ m < 60 ∧ s < 60 then some (3600 * h + 60 * m + s, n, cs)
  else if h < 24 ∧ m < 60 ∧ s = 60 then some (3600 * h + 60 * m + 59, nanosPerSecond + n, cs)
  else none

def isColonOrBlank (c : Char) : Bool := c == ':' || isBlank c

/-- Seconds east of UTC, from two digits of hours and two of minutes. -/
def readSignedOffset (cs : List Char) : Option (Nat × List Char) :=
  match cs with
  | h₁ :: h₂ :: cs =>
    match cs.dropWhile isColonOrBlank with
    | m₁ :: m₂ :: rest =>
      match natural? [h₁, h₂], natural? [m₁, m₂] with
      | some h, some m => if h < 24 ∧ m < 60 then some (3600 * h + 60 * m, rest) else none
      | _, _ => none
    | _ => none
  | _ => none

def readOffset (cs : List Char) : Option (Int × List Char) :=
  if (cs.take 3).map Char.toUpper = ['U', 'T', 'C'] then some (0, cs.drop 3)
  else match cs with
    | c :: r =>
      if c = 'Z' ∨ c = 'z' then some (0, r)
      else if c = '+' then (readSignedOffset r).map fun (n, r) => ((n : Int), r)
      else if c = '-' ∨ c = '−' then (readSignedOffset r).map fun (n, r) => (-(n : Int), r)
      else none
    | [] => none

/-- The instant, if it is within the years of the calendar in UTC as well. -/
def within? (second : Int) (nano : Nat) : Option Instant :=
  if Date.toDays ⟨firstYear, 1, 1⟩ * secondsPerDay ≤ second ∧
      second < Date.toDays ⟨lastYear + 1, 1, 1⟩ * secondsPerDay then some ⟨second, nano⟩
  else none

def ofChars? (cs : List Char) : Option Instant := do
  let (date, cs) ← readDate cs
  let cs ← match cs with
    | c :: r => if c = 'T' ∨ c = 't' ∨ c = ' ' then some r else none
    | [] => none
  let (s, n, cs) ← readClock cs
  let (offset, cs) ← readOffset (trimStart cs)
  if (trimStart cs).isEmpty then within? (date.toDays * secondsPerDay + s - offset) n else none

def ofText? (s : String) : Option Instant := ofChars? s.toList

end Bourse.Instant
