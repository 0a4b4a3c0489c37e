/-! Text in parts. -/
namespace Bourse.Text

/-- The parts between separators, of which there may be none. Parts may be empty. -/
def splitAt (separator : Char) : List Char → List (List Char)
  | [] => [[]]
  | c :: cs =>
    if c = separator then [] :: splitAt separator cs
    else match splitAt separator cs with
      | [] => [[c]]
      | part :: parts => (c :: part) :: parts

end Bourse.Text
