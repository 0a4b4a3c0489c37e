import Bourse.Proofs.Text.Digits
import Bourse.Uuid

/-! An identifier is read back from its text. -/
namespace Bourse.Uuid

open Bourse.Text

/-- Five groups of these lengths, with hyphens between them, are taken together. -/
theorem ofGroups?_hyphens {a b c d e : List Char} (ha : a.length = 8) (hb : b.length = 4)
    (hc : c.length = 4) (hd : d.length = 4) (he : e.length = 12) :
    ofGroups? (a ++ '-' :: b ++ '-' :: c ++ '-' :: d ++ '-' :: e) =
      ofDigits? (a ++ b ++ c ++ d ++ e) := by
  rw [ofGroups?, if_pos (by simp [ha, hb, hc, hd, he])]
  simp [List.drop_append, List.drop_eq_nil_of_le, ha, hb, hc, hd]

theorem ofText?_text (u : Uuid) : ofText? u.text = some u := by
  have digits : (hexPadded 32 u.value).length = 32 := length_hexPadded (by decide) u.value_lt
  have read : ofDigits? (hexPadded 32 u.value) = some u := by
    rw [ofDigits?, if_pos digits, hexValue?_hexPadded, Option.bind_some, dif_pos u.value_lt]
  rw [ofText?, text, String.toList_ofList, toChars]
  generalize hexPadded 32 u.value = ds at digits read
  have long : (ds.take 8 ++ '-' :: (ds.drop 8).take 4 ++ '-' :: (ds.drop 12).take 4 ++
      '-' :: (ds.drop 16).take 4 ++ '-' :: ds.drop 20).length = 36 := by simp [digits]
  rw [ofChars?, if_neg (by omega), if_pos long, ofGroups?_hyphens (by simp [digits])
    (by simp [digits]) (by simp [digits]) (by simp [digits]) (by simp [digits])]
  have whole : ds.take 8 ++ (ds.drop 8).take 4 ++ (ds.drop 12).take 4 ++ (ds.drop 16).take 4 ++
      ds.drop 20 = ds := by
    rw [← List.take_add, ← List.take_add, ← List.take_add, List.take_append_drop]
  rw [whole, read]

end Bourse.Uuid
