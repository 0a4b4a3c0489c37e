/-! Text as bytes: UTF-8. Bytes that encode no character are marked where they stand, one by one. -/
namespace Bourse.Text

def utf8 (cs : List Char) : List UInt8 := cs.flatMap String.utf8EncodeChar

def isTail (b : UInt8) : Bool := 0x80 ≤ b && b ≤ 0xBF

/-- A code point that is a character, and needs as many bytes as it was written with. -/
def charFrom? (least n : Nat) : Option Char :=
  if least ≤ n ∧ n.isValidChar then some (Char.ofNat n) else none

def tailBits (b : UInt8) : Nat := b.toNat % 64

/-- The character that bytes begin with, and how many of them it takes after the first. -/
def firstChar? : List UInt8 → Option (Char × Nat)
  | [] => none
  | a :: bs =>
    if a < 0x80 then some (Char.ofNat a.toNat, 0)
    else if a < 0xC0 then none
    else if a < 0xE0 then
      match bs with
      | b :: _ =>
        if isTail b then (charFrom? 0x80 (a.toNat % 32 * 64 + tailBits b)).map (·, 1) else none
      | _ => none
    else if a < 0xF0 then
      match bs with
      | b :: c :: _ =>
        if isTail b && isTail c then
          (charFrom? 0x800 ((a.toNat % 16 * 64 + tailBits b) * 64 + tailBits c)).map (·, 2)
        else none
      | _ => none
    else if a < 0xF8 then
      match bs with
      | b :: c :: d :: _ =>
        if isTail b && isTail c && isTail d then
          (charFrom? 0x10000
            (((a.toNat % 8 * 64 + tailBits b) * 64 + tailBits c) * 64 + tailBits d)).map (·, 3)
        else none
      | _ => none
    else none

/-- The characters of bytes after so many that are passed over. -/
def charsAfter : Nat → List UInt8 → List (Option Char)
  | _, [] => []
  | n + 1, _ :: bs => charsAfter n bs
  | 0, b :: bs =>
    match firstChar? (b :: bs) with
    | some (c, n) => some c :: charsAfter n bs
    | none => none :: charsAfter 0 bs

/-- The characters of bytes; `none` stands for a byte that belongs to none. -/
def chars (bs : List UInt8) : List (Option Char) := charsAfter 0 bs

def text? (bs : List UInt8) : Option String := ((chars bs).mapM id).map String.ofList

end Bourse.Text
