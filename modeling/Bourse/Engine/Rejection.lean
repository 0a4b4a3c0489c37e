import Bourse.Book.Basic

/-! Why a command to the engine fails. That nothing matches is no failure. -/
namespace Bourse

inductive Rejection where
  | invalid (reason : Invalid)
  | duplicate (id : OrderId)
  | overflow (id : OrderId) (price : Price)
  | notFound (id : OrderId)
  | refused (reason : Refusal)
  /-- Nobody serves the engine any more. -/
  | unavailable (text : String)
deriving DecidableEq

def Rejection.message : Rejection → String
  | invalid (.side text) => "Invalid order side: " ++ text
  | invalid (.price text) => "Invalid price: " ++ text
  | invalid (.quantity n) => "Invalid quantity: " ++ countText n
  | duplicate id => "Order " ++ id.text ++ " is already resting in the book"
  | overflow id price => overflowText id price
  | notFound id => "Order " ++ id.text ++ " not found"
  | refused reason => "Orderbook error: " ++ reason.message
  | unavailable text => "Matching engine unavailable: " ++ text

end Bourse
