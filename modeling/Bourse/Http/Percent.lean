import Bourse.Text.Digits
import Bourse.Text.Utf8

/-! Percent encoding: a percent sign with two hexadecimal digits stands for a byte. A percent sign
without them stands for itself. -/
namespace Bourse.Http

open Bourse.Text

def percentDecode : List Char → List UInt8
  | [] => []
  | '%' :: h :: l :: cs =>
    match hexDigit? h, hexDigit? l with
    | some a, some b => UInt8.ofNat (16 * a + b) :: percentDecode cs
    | _, _ => utf8 ['%'] ++ percentDecode (h :: l :: cs)
  | c :: cs => utf8 [c] ++ percentDecode cs

end Bourse.Http
