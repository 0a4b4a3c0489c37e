import Bourse.Text.Digits

/-! What can be wrong with the data of an order before any book is looked at. -/
namespace Bourse

inductive Invalid where
  | side (text : String)
  /-- A price that is zero, negative or no decimal. -/
  | price (text : String)
  | quantity (n : Nat)
deriving DecidableEq

def countText (n : Nat) : String := String.ofList (Text.decimal n)

def Invalid.message : Invalid → String
  | side text => "Invalid side specified: " ++ text
  | price text => "Invalid price specified: " ++ text
  | quantity n => "Invalid quantity specified: " ++ countText n

end Bourse
